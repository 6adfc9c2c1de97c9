import FacetQuery.Decimal.Binary64

/-!
# Decimal — Shortest digits

The fewest decimal digits that read back as a given double, and of those the nearest to it.

All lengths are measured in quarters of `2 ^ -1074`: the half gaps to the neighbouring doubles are
whole numbers of them.
-/

namespace FacetQuery

/-- The number `digits * 10 ^ exponent`. -/
structure Decimal where
  digits : Nat
  exponent : Int
deriving DecidableEq, Repr

/-- Which of two equally near decimals is taken. -/
inductive Tie where
  /-- The larger one. -/
  | up
  /-- The one whose last digit is even. -/
  | even
deriving DecidableEq, Repr

namespace Binary64

/-! ### The numbers that round to a double -/

/-- `lowEnd x` is halfway to the next smaller double, in quarter units: at the foot of a binade
the gap below is half the gap above. -/
def lowEnd (x : Binary64) : Nat :=
  4 * x.units - (if x.significand = hiddenBit ∧ 1 < x.biased then x.spacing else 2 * x.spacing)

/-- `highEnd x` is halfway to the next larger double, in quarter units. -/
def highEnd (x : Binary64) : Nat :=
  4 * x.units + 2 * x.spacing

/-- `holds x d` says that `d` reads back as `x` (signs apart): it lies between the two ends, which
count themselves when the significand is even. -/
def holds (x : Binary64) (d : Decimal) : Bool :=
  let point := d.digits * Nat.pow 10 d.exponent.toNat * Nat.pow 2 1076
  let scale := Nat.pow 10 (-d.exponent).toNat
  if x.significand % 2 = 0 then
    x.lowEnd * scale ≤ point && point ≤ x.highEnd * scale
  else
    x.lowEnd * scale < point && point < x.highEnd * scale

/-! ### The search -/

/-- `onGrid tie x k` is the multiple of `10 ^ k` nearest to `x` that reads back as `x`, if any
does. Only the two multiples around `x` can: the numbers that read back form an interval. -/
def onGrid (tie : Tie) (x : Binary64) (k : Int) : Option Decimal :=
  let value := 4 * x.units * Nat.pow 10 (-k).toNat
  let step := Nat.pow 2 1076 * Nat.pow 10 k.toNat
  let below : Decimal := ⟨value / step, k⟩
  let above : Decimal := ⟨value / step + 1, k⟩
  let rest := value % step
  match x.holds below, x.holds above with
  | true, true =>
      if 2 * rest < step then some below
      else if step < 2 * rest then some above
      else match tie with
        | .up => some above
        | .even => some (if below.digits % 2 = 0 then below else above)
  | true, false => some below
  | false, true => some above
  | false, false => none

/-- `search tie x n k` tries the `n` grids from `10 ^ k` down to ever finer ones. -/
def search (tie : Tie) (x : Binary64) : Nat → Int → Option Decimal
  | 0, _ => none
  | n + 1, k =>
      match onGrid tie x k with
      | some d => some d
      | none => search tie x n (k - 1)

/-- `shortest tie x` is the shortest decimal that reads back as the finite non-zero `x`. No grid
coarser than `10 ^ 308` holds a double, and `10 ^ -324` is finer than any gap between two. -/
def shortest (tie : Tie) (x : Binary64) : Decimal :=
  (search tie x 633 308).getD ⟨0, 0⟩

end Binary64

end FacetQuery
