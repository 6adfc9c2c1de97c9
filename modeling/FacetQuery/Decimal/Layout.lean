import FacetQuery.Decimal.Shortest

/-!
# Decimal — Layout

How numbers are spelled: integers in plain digits, doubles by their shortest digits in one of two
layouts, `Layout.plain` for SQL text and `Layout.json` for JSON text.
-/

namespace FacetQuery

/-- `digits n` are the decimal digits of `n`, most significant first. -/
def digits (n : Nat) : List Char :=
  Nat.toDigits 10 n

/-- `naturalText n` is `n` in decimal digits. -/
def naturalText (n : Nat) : String :=
  String.ofList (digits n)

/-- `integerText i` is `i` in decimal digits behind a minus sign if `i` is negative. -/
def integerText (i : Int) : String :=
  String.ofList (if i < 0 then '-' :: digits i.natAbs else digits i.natAbs)

/-- How a double is spelled. -/
structure Layout where
  /-- Which of two equally near decimals is written. -/
  tie : Tie
  /-- Powers of ten of the leading digit from here on are written positionally; `none`: all. -/
  least : Option Int
  /-- Powers of ten of the leading digit up to here are written positionally; `none`: all. -/
  greatest : Option Int
  /-- Whole numbers written positionally end in `.0`. -/
  keepsPoint : Bool

namespace Layout

/-- Always positional, and a whole number looks like an integer. -/
def plain : Layout := ⟨.up, none, none, false⟩

/-- Positional from `0.00001` to sixteen digits before the point, and a point in every such number. -/
def json : Layout := ⟨.even, some (-5), some 15, true⟩

/-- `isPositional l e` tells whether a number whose leading digit counts `10 ^ e` has no exponent. -/
def isPositional (l : Layout) (e : Int) : Bool :=
  l.least.all (· ≤ e) && l.greatest.all (e ≤ ·)

/-- `positional l ds k` writes `ds * 10 ^ k` without an exponent. -/
def positional (l : Layout) (ds : List Char) (k : Int) : List Char :=
  let point := ds.length + k
  if 0 ≤ k then
    ds ++ List.replicate k.toNat '0' ++ (if l.keepsPoint then ['.', '0'] else [])
  else if 0 < point then
    ds.take point.toNat ++ '.' :: ds.drop point.toNat
  else
    '0' :: '.' :: (List.replicate (-point).toNat '0' ++ ds)

/-- `scientific ds e` writes the digits with a point after the first one and the exponent `e`,
which always has a sign. -/
def scientific (ds : List Char) (e : Int) : List Char :=
  let mantissa := match ds with
    | [] => []
    | [d] => [d]
    | d :: rest => d :: '.' :: rest
  mantissa ++ 'e' :: (if e < 0 then '-' else '+') :: digits e.natAbs

/-- `unsigned l x` is the absolute value of a finite `x`. -/
def unsigned (l : Layout) (x : Binary64) : List Char :=
  if x.units = 0 then l.positional ['0'] 0
  else
    let d := x.shortest l.tie
    let ds := digits d.digits
    let e := ds.length + d.exponent - 1
    if l.isPositional e then l.positional ds d.exponent else scientific ds e

/-- `chars l x` spells the double `x`. -/
def chars (l : Layout) (x : Binary64) : List Char :=
  if x.isNaN then "NaN".toList
  else
    let absolute := if x.isFinite then l.unsigned x else "inf".toList
    if x.isNegative then '-' :: absolute else absolute

/-- `text l x` spells the double `x`. -/
def text (l : Layout) (x : Binary64) : String :=
  String.ofList (l.chars x)

end Layout

end FacetQuery
