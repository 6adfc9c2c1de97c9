import FacetQuery.Decimal.Literal
import FacetQuery.Json.Value

/-!
# Params — Scalars

The value that the text of a request parameter stands for: one of three words, a whole number, a
decimal whose double is finite, or the text itself.
-/

namespace FacetQuery.Params

open Json

/-- `fitsInt64 i` says that `i` fits 64 bits, one of them for the sign. -/
def fitsInt64 (i : Int) : Bool := -0x8000000000000000 ≤ i && i < 0x8000000000000000

/-- `wholeNumber? cs` is the whole number that `cs` spells, if it fits 64 bits with a sign. -/
def wholeNumber? (cs : List Char) : Option Integer :=
  match readInteger? cs with
  | some i => if fitsInt64 i then Integer.ofInt? i else none
  | none => none

/-- `decimal? cs` is the finite double nearest to the decimal that `cs` spells. -/
def decimal? (cs : List Char) : Option Number :=
  (Decimal.Literal.read? cs).bind fun l => Number.ofBinary64? l.toBinary64

/-- `scalar cs` is the value that `cs` stands for. -/
def scalar (cs : List Char) : Value :=
  if cs = "null".toList then .null
  else if cs = "true".toList then .bool true
  else if cs = "false".toList then .bool false
  else match wholeNumber? cs with
    | some i => .number (.whole i)
    | none =>
        match decimal? cs with
        | some n => .number n
        | none => .string (String.ofList cs)

end FacetQuery.Params
