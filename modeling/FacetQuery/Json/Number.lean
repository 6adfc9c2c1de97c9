import FacetQuery.Decimal.Layout

/-!
# Json — Numbers

A number is a whole number from `-2^63` to `2^64 - 1`, or a finite double. The two never mix: a
double is no whole number, not even `2.0`.
-/

namespace FacetQuery.Json

/-- A whole number from `-2^63` to `2^64 - 1`. -/
structure Integer where
  val : Int
  lower : -0x8000000000000000 ≤ val
  upper : val < 0x10000000000000000
deriving DecidableEq

namespace Integer

/-- `ofInt? i` is `i` if it lies in the range. -/
def ofInt? (i : Int) : Option Integer :=
  if h : -0x8000000000000000 ≤ i ∧ i < 0x10000000000000000 then some ⟨i, h.1, h.2⟩ else none

/-- `ofUInt64 n` is `n`, which always lies in the range. -/
def ofUInt64 (n : UInt64) : Integer :=
  ⟨n.toNat, by omega, by have := n.toNat_lt; omega⟩

/-- `toUInt64? i` is `i` unless it is negative. -/
def toUInt64? (i : Integer) : Option UInt64 :=
  if 0 ≤ i.val then some (UInt64.ofNat i.val.toNat) else none

@[simp] theorem val_ofUInt64 (n : UInt64) : (ofUInt64 n).val = n.toNat := rfl

@[simp] theorem toUInt64?_ofUInt64 (n : UInt64) : (ofUInt64 n).toUInt64? = some n := by
  simp [toUInt64?]

theorem ofInt?_val (i : Integer) : ofInt? i.val = some i := by
  simp only [ofInt?, i.lower, i.upper, and_self, dite_true]

end Integer

/-- A JSON number. -/
inductive Number where
  /-- A whole number. -/
  | whole (i : Integer)
  /-- A finite double. -/
  | real (x : Binary64) (finite : x.isFinite = true)
deriving DecidableEq

namespace Number

/-- `ofUInt64 n` is the whole number `n`. -/
def ofUInt64 (n : UInt64) : Number :=
  .whole (.ofUInt64 n)

/-- `ofBinary64? x` is the double `x` if it is finite. -/
def ofBinary64? (x : Binary64) : Option Number :=
  if h : x.isFinite = true then some (.real x h) else none

/-- `toUInt64? n` is `n` if it is a whole number that is not negative. -/
def toUInt64? : Number → Option UInt64
  | .whole i => i.toUInt64?
  | .real _ _ => none

/-- `text n` spells `n`. -/
def text : Number → String
  | .whole i => integerText i.val
  | .real x _ => Layout.json.text x

@[simp] theorem toUInt64?_ofUInt64 (n : UInt64) : (ofUInt64 n).toUInt64? = some n :=
  Integer.toUInt64?_ofUInt64 n

end Number

end FacetQuery.Json
