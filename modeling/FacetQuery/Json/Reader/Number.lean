import FacetQuery.Decimal.Literal
import FacetQuery.Json.Reader.Basic

/-!
# Json — Reader — Numbers

A number is read in two steps: its parts by the grammar, then their value.

- A whole number that fits is exact; `-0` and whole numbers out of range are doubles.
- The value of any other number: of its digits, those that fit 64 bits count, and the rest only
  shift the exponent; the double nearest to them is multiplied or divided by the double nearest to
  the power of ten.
-/

namespace FacetQuery.Json

/-- The parts of a number. -/
structure NumberParts where
  negative : Bool
  whole : List Char
  /-- The digits behind the point, if there is one. -/
  fraction : Option (List Char)
  /-- Whether the exponent is negative, and its digits, if there is one. -/
  exponent : Option (Bool × List Char)
deriving DecidableEq, Repr

/-! ### The grammar -/

namespace Reader

/-- `requireDigits atEnd` takes one digit or more. -/
def requireDigits (atEnd : Fault) : Reader (List Char) := do
  let ds ← takeWhile Char.isDigit
  if ds ≠ [] then pure ds
  else match ← peek with
    | none => here atEnd
    | some _ => ahead .invalidNumber

/-- `wholeDigits atEnd` takes the digits before the point: a zero alone, or others. -/
def wholeDigits (atEnd : Fault) : Reader (List Char) := do
  match ← peek with
  | some '0' => do
      eat
      match ← peek with
      | some d => if d.isDigit then ahead .invalidNumber else pure ['0']
      | none => pure ['0']
  | _ => requireDigits atEnd

/-- `fractionDigits atEnd` takes a point and digits, if a point is next. -/
def fractionDigits (atEnd : Fault) : Reader (Option (List Char)) := do
  match ← peek with
  | some '.' => do eat; return some (← requireDigits atEnd)
  | _ => pure none

/-- `exponentDigits atEnd` takes an `e`, a sign and digits, if an `e` is next. -/
def exponentDigits (atEnd : Fault) : Reader (Option (Bool × List Char)) := do
  match ← peek with
  | some c =>
      if c = 'e' ∨ c = 'E' then do
        eat
        let sign ← peek
        if sign = some '-' ∨ sign = some '+' then eat
        return some (sign = some '-', ← requireDigits atEnd)
      else pure none
  | none => pure none

/-- `numberParts atEnd` takes a number; `atEnd` is what is wrong where the text ends too early. -/
def numberParts (atEnd : Fault) : Reader NumberParts := do
  let negative := (← peek) = some '-'
  if negative then eat
  let whole ← wholeDigits atEnd
  let fraction ← fractionDigits atEnd
  let exponent ← exponentDigits atEnd
  return { negative, whole, fraction, exponent }

end Reader

/-! ### The value -/

/-- `fitting limit n ds` appends the digits `ds` to `n` as long as the number does not exceed
`limit`, and gives the digits that are left. -/
def fitting (limit n : Nat) : List Char → Nat × List Char
  | [] => (n, [])
  | d :: ds =>
      let n' := 10 * n + (d.toNat - '0'.toNat)
      if n' ≤ limit then fitting limit n' ds else (n, d :: ds)

/-- `powerOfTen n` is the double nearest to `10 ^ n`. -/
def powerOfTen (n : Nat) : Binary64 :=
  .ofRatio false (Nat.pow 10 n) 1

/-- `scaled x e` is `x * 10 ^ e` in steps of at most `10 ^ 308`, each rounded; `none` if that is
infinite. -/
def scaled (x : Binary64) (e : Int) : Option Binary64 :=
  if e.natAbs ≤ 308 then
    if 0 ≤ e then
      let r := x.times (powerOfTen e.natAbs)
      if r.isFinite then some r else none
    else some (x.dividedBy (powerOfTen e.natAbs))
  else if x.units = 0 then some x
  else if 0 ≤ e then none
  else scaled (x.dividedBy (powerOfTen 308)) (e + 308)
termination_by e.natAbs

namespace NumberParts

/-- The greatest significand that is kept, `2 ^ 64 - 1`. -/
def maxSignificand : Nat := 0xFFFFFFFFFFFFFFFF

/-- The greatest exponent that is looked at, `2 ^ 31 - 1`. -/
def maxExponent : Nat := 0x7FFFFFFF

/-- `fractionDigits p` are the digits behind the point. -/
def fractionDigits (p : NumberParts) : List Char :=
  p.fraction.getD []

/-- `kept p` is the number that the digits kept spell, and the power of ten of their last one. -/
def kept (p : NumberParts) : Nat × Int :=
  let (n, wholeLeft) := fitting maxSignificand 0 p.whole
  let (m, fractionLeft) := fitting maxSignificand n p.fractionDigits
  (m, wholeLeft.length - (p.fractionDigits.length - fractionLeft.length : Int))

/-- `isWhole p` says that `p` is written without point and exponent. -/
def isWhole (p : NumberParts) : Bool :=
  p.fraction.isNone && p.exponent.isNone

/-- `integer? p` is the value of a whole number that fits, and is not `-0`. -/
def integer? (p : NumberParts) : Option Integer :=
  if p.isWhole then
    let n := digitsValue p.whole
    if p.negative then (if n = 0 then none else Integer.ofInt? (-(n : Int)))
    else Integer.ofInt? n
  else none

/-- `exponentOverflow p` is the number of digits left behind the one that makes the exponent too large. -/
def exponentOverflow (p : NumberParts) : Option Nat :=
  match p.exponent with
  | none => none
  | some (_, ds) =>
      match (fitting maxExponent 0 ds).2 with
      | [] => none
      | _ :: left => some left.length

/-- `real? p` is the double that `p` is worth, `none` if it would be infinite. -/
def real? (p : NumberParts) : Option Binary64 :=
  let (m, shift) := p.kept
  let absolute :=
    match p.exponent with
    | none => scaled (.ofInt m) shift
    | some (negative, ds) =>
        if (fitting maxExponent 0 ds).2 = [] then
          let e : Int := digitsValue ds
          scaled (.ofInt m) (if negative then shift - e else shift + e)
        else if m ≠ 0 ∧ !negative then none
        else some (.ofMagnitude false 0)
  absolute.map fun x => if p.negative then x.negate else x

/-- `number? p` is the value of `p`. -/
def number? (p : NumberParts) : Option Number :=
  match p.integer? with
  | some i => some (.whole i)
  | none => p.real?.bind Number.ofBinary64?

end NumberParts

namespace Reader

/-- A number. One that is too large is reported behind it, or behind the digit of the exponent
that settles it. -/
def number : Reader Number := do
  let p ← numberParts .endInValue
  match p.number? with
  | some n => pure n
  | none => back (p.exponentOverflow.getD 0) .numberOutOfRange

/-- A number of which nothing is kept. -/
def skipNumber : Reader Unit := do
  let _ ← numberParts .invalidNumber

end Reader

end FacetQuery.Json
