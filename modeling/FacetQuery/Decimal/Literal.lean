import FacetQuery.Decimal.Binary64

/-!
# Decimal — Literals

Numbers written in decimal: signed whole numbers, and decimals with an optional point and exponent.

- `readInteger?` reads an optional sign and one or more digits.
- `Decimal.Literal.read?` reads an optional sign, digits with at most one point among, before or behind
  them, and an optional exponent.
- `Decimal.Literal.toBinary64` is the nearest double, infinity where the number is too large.
-/

namespace FacetQuery

/-- `digitsValue ds` is the number that the decimal digits `ds` spell. -/
def digitsValue (ds : List Char) : Nat :=
  ds.foldl (fun n d => 10 * n + (d.toNat - '0'.toNat)) 0

/-- `splitSign cs` takes one leading sign off and tells whether it was a minus. -/
def splitSign : List Char → Bool × List Char
  | '-' :: cs => (true, cs)
  | '+' :: cs => (false, cs)
  | cs => (false, cs)

/-- `readInteger? cs` is the whole number spelled by `cs`: an optional sign, then digits alone. -/
def readInteger? (cs : List Char) : Option Int :=
  let (negative, ds) := splitSign cs
  if ds ≠ [] ∧ ds.all Char.isDigit then
    some (if negative then -(digitsValue ds : Int) else digitsValue ds)
  else none

/-- The number `digits * 10 ^ exponent`, or its negative. -/
structure Decimal.Literal where
  negative : Bool
  digits : List Char
  exponent : Int
deriving DecidableEq, Repr

namespace Decimal.Literal

/-- `readExponent? cs` reads what may follow the digits: nothing, or an `e` and a whole number. -/
def readExponent? : List Char → Option Int
  | [] => some 0
  | c :: cs => if c = 'e' ∨ c = 'E' then readInteger? cs else none

/-- `splitFraction cs` is the digits behind a point at the head of `cs`, and what follows. -/
def splitFraction : List Char → List Char × List Char
  | '.' :: cs => (cs.takeWhile Char.isDigit, cs.dropWhile Char.isDigit)
  | cs => ([], cs)

/-- `read? cs` reads a decimal that takes up all of `cs`. -/
def read? (cs : List Char) : Option Literal :=
  let (negative, body) := splitSign cs
  let whole := body.takeWhile Char.isDigit
  let (fraction, tail) := splitFraction (body.dropWhile Char.isDigit)
  if whole = [] ∧ fraction = [] then none
  else (readExponent? tail).map fun e =>
    ⟨negative, whole ++ fraction, e - fraction.length⟩

/-- `toBinary64 l` is the double nearest to `l`. A number of `10 ^ 400` or more is infinite and one
below `10 ^ -400` is zero, whatever its digits are. -/
def toBinary64 (l : Literal) : Binary64 :=
  let value := digitsValue l.digits
  let size := l.digits.length + l.exponent
  if value = 0 ∨ size < -400 then .ofMagnitude l.negative 0
  else if 400 < size - (l.digits.takeWhile (· = '0')).length then
    .ofMagnitude l.negative Binary64.infinite
  else .ofRatio l.negative (value * Nat.pow 10 l.exponent.toNat) (Nat.pow 10 (-l.exponent).toNat)

end Decimal.Literal

end FacetQuery
