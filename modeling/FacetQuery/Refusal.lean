import FacetQuery.Operation

/-!
# Refusals

Why a request cannot be turned into a query: it is invalid, or asks for an operation that the
backend lacks, or holds something that no query can express. `Refusal.message` is the wording.
-/

namespace FacetQuery

/-- What makes a request invalid. -/
inductive Invalid where
  /-- The filter is no object. -/
  | filterShape
  /-- No operator has the name under which a value is given for the field. -/
  | unknownOperator (field name : String)
  /-- The schema does not let requests filter by the field. -/
  | notFilterable (field : String)
  /-- The value given for the field does not have the shape that its operation takes. -/
  | valueShape (field : String) (expected : ValueShape)
  /-- The sort is no string, array or object. -/
  | sortShape
  /-- The sort is an array with something else than a string in it. -/
  | sortItemShape
  /-- A sort entry has an empty field name. -/
  | sortUnnamed
  /-- The schema does not let requests sort by the field. -/
  | notSortable (field : String)
  /-- The request sorts twice by the field. -/
  | sortedTwice (field : String)
  /-- The page is a number and no positive whole number. -/
  | pageNotPositive
deriving DecidableEq, Repr

namespace Invalid

/-- `message i` tells the client what is wrong. -/
def message : Invalid → String
  | .filterShape => "filter must be an object"
  | .unknownOperator field name => field ++ " cannot be filtered with '" ++ name ++ "'"
  | .notFilterable field => field ++ " is not filterable"
  | .valueShape field expected => field ++ " must be " ++ expected.description
  | .sortShape => "sort must be one of [string, array, object]"
  | .sortItemShape => "sort must be an array of strings"
  | .sortUnnamed => "sort must name a field"
  | .notSortable field => field ++ " is not sortable"
  | .sortedTwice field => field ++ " is sorted more than once"
  | .pageNotPositive => "page must be a positive integer"

end Invalid

/-- What no query can express. -/
inductive Inexpressible where
  /-- An array where a single value is needed. -/
  | nestedArray
  /-- An object where a single value is needed. -/
  | object
  /-- A range with fewer than two bounds. -/
  | missingBounds (op : Operator)
  /-- An operator that needs an array and was given something else. -/
  | notArray (op : Operator)
  /-- A filter parameter whose key does not end in an operator's name. -/
  | parameter (key : String)
deriving DecidableEq, Repr

namespace Inexpressible

/-- `description x` names `x` in a message. -/
def description : Inexpressible → String
  | .nestedArray => "nested array values"
  | .object => "object values"
  | .missingBounds op => "'" ++ op.name ++ "' with fewer than two bounds"
  | .notArray op => "'" ++ op.name ++ "' with a non-array value"
  | .parameter key => "the filter parameter '" ++ key ++ "'"

end Inexpressible

/-- Why a request cannot be turned into a query. -/
inductive Refusal where
  /-- The request is invalid. -/
  | invalid (why : Invalid)
  /-- The backend does not implement the operation. -/
  | unsupported (operation : Operation)
  /-- The request holds something that no query can express. -/
  | inexpressible (what : Inexpressible)
deriving DecidableEq, Repr

namespace Refusal

/-- `message r` is the wording of `r`. -/
def message : Refusal → String
  | .invalid why => why.message
  | .unsupported operation =>
      "Operator '" ++ operation.name ++ "' is not supported by this adapter."
  | .inexpressible what => "Queries containing " ++ what.description ++ " are not supported."

end Refusal

end FacetQuery
