import FacetQuery.Json.Value
import FacetQuery.Operator

/-!
# Operations

What a request may ask of a backend: a filter by some operator, a sort, a page. Each operation
takes values of one shape.

- `Operation.ofName?_name`: an operation is read back from its name.
- `ValueShape.admits` tells which values have a shape, `ValueShape.description` what to call it.
-/

namespace FacetQuery

/-- Something a backend may support. -/
inductive Operation where
  | filter (op : Operator)
  | sort
  | page
deriving DecidableEq, Repr

namespace Operation

/-- Every operation. -/
def all : List Operation :=
  Operator.all.map .filter ++ [.sort, .page]

/-- `name o` is how messages call `o`. -/
def name : Operation → String
  | .filter op => "filter:" ++ op.name
  | .sort => "sort"
  | .page => "page"

/-- `ofName? s` is the operation called `s`. -/
def ofName? (s : String) : Option Operation :=
  all.find? (·.name = s)

theorem mem_all (o : Operation) : o ∈ all := by
  cases o with
  | filter op => simp [all, Operator.mem_all op]
  | sort => simp [all]
  | page => simp [all]

theorem ofName?_name (o : Operation) : ofName? o.name = some o := by
  cases o with
  | filter op => cases op <;> decide
  | sort => decide
  | page => decide

end Operation

/-- A shape of value. -/
inductive ValueShape where
  /-- A boolean, a number or a string. -/
  | scalar
  | number
  | null
  /-- Any array, whatever its items and however many. -/
  | array
  | string
  /-- The name of a direction. -/
  | direction
deriving DecidableEq, Repr

namespace ValueShape

/-- `ofOperation o` is the shape of the values that `o` takes. -/
def ofOperation : Operation → ValueShape
  | .filter op =>
      match op.cls with
      | .equality => .scalar
      | .comparison => .number
      | .nullCheck => .null
      | .setMembership | .range => .array
      | .pattern => .string
  | .sort => .direction
  | .page => .number

/-- `admits shape v` says that `v` has the shape. -/
def admits : ValueShape → Json.Value → Bool
  | .scalar, .bool _ | .scalar, .number _ | .scalar, .string _ => true
  | .number, .number _ => true
  | .null, .null => true
  | .array, .array _ => true
  | .string, .string _ => true
  | .direction, .string s => (Direction.ofName? s).isSome
  | _, _ => false

/-- `description shape` is what a message says a value must be. -/
def description : ValueShape → String
  | .scalar => "one of [boolean, number, string]"
  | .number => "a number"
  | .null => "[null]"
  | .array => "an array"
  | .string => "a string"
  | .direction => "one of [asc, desc]"

end ValueShape

end FacetQuery
