/-!
# Operators

The comparison operators a filter may use, the classes they fall into, and the sort directions.

- `Operator.ofName?_name` and `Operator.name_of_ofName?`: an operator's name is read back as that
  operator and nothing else is.
-/

namespace FacetQuery

/-- A comparison between a field and a value. -/
inductive Operator where
  | equal
  | notEqual
  /-- `<>`, which means the same as `!=` and keeps its own spelling. -/
  | lessOrGreater
  | greater
  | greaterOrEqual
  | less
  | lessOrEqual
  | isNull
  | isNotNull
  | isIn
  | isNotIn
  | like
  | notLike
  | ilike
  | notIlike
  | between
  | notBetween
deriving DecidableEq, Repr

/-- Operators that take the same shape of value. -/
inductive OperatorClass where
  | equality
  | comparison
  | nullCheck
  | setMembership
  | pattern
  | range
deriving DecidableEq, Repr

namespace Operator

/-- Every operator. -/
def all : List Operator :=
  [.equal, .notEqual, .lessOrGreater, .greater, .greaterOrEqual, .less, .lessOrEqual,
   .isNull, .isNotNull, .isIn, .isNotIn, .like, .notLike, .ilike, .notIlike, .between, .notBetween]

/-- `name op` is how a request writes `op`. -/
def name : Operator → String
  | .equal => "="
  | .notEqual => "!="
  | .lessOrGreater => "<>"
  | .greater => ">"
  | .greaterOrEqual => ">="
  | .less => "<"
  | .lessOrEqual => "<="
  | .isNull => "is"
  | .isNotNull => "is not"
  | .isIn => "in"
  | .isNotIn => "not in"
  | .like => "like"
  | .notLike => "not like"
  | .ilike => "ilike"
  | .notIlike => "not ilike"
  | .between => "between"
  | .notBetween => "not between"

/-- `ofName? s` is the operator that a request writes as `s`. -/
def ofName? (s : String) : Option Operator :=
  all.find? (·.name = s)

/-- `cls op` is the class of `op`. -/
def cls : Operator → OperatorClass
  | .equal | .notEqual | .lessOrGreater => .equality
  | .greater | .greaterOrEqual | .less | .lessOrEqual => .comparison
  | .isNull | .isNotNull => .nullCheck
  | .isIn | .isNotIn => .setMembership
  | .like | .notLike | .ilike | .notIlike => .pattern
  | .between | .notBetween => .range

theorem mem_all (op : Operator) : op ∈ all := by
  cases op <;> decide

theorem ofName?_name (op : Operator) : ofName? op.name = some op := by
  cases op <;> decide

theorem name_of_ofName? {s : String} {op : Operator} (h : ofName? s = some op) : op.name = s := by
  simpa using List.find?_some h

end Operator

namespace OperatorClass

/-- `name c` is the name of the class `c`. -/
def name : OperatorClass → String
  | .equality => "Equality"
  | .comparison => "Comparison"
  | .nullCheck => "NullCheck"
  | .setMembership => "SetMembership"
  | .pattern => "Pattern"
  | .range => "Range"

end OperatorClass

/-- The direction of a sort. -/
inductive Direction where
  | asc
  | desc
deriving DecidableEq, Repr

namespace Direction

/-- Both directions. -/
def all : List Direction := [.asc, .desc]

/-- `name d` is how a request writes `d`. -/
def name : Direction → String
  | .asc => "asc"
  | .desc => "desc"

/-- `ofName? s` is the direction that a request writes as `s`. -/
def ofName? (s : String) : Option Direction :=
  all.find? (·.name = s)

theorem ofName?_name (d : Direction) : ofName? d.name = some d := by
  cases d <;> decide

theorem name_of_ofName? {s : String} {d : Direction} (h : ofName? s = some d) : d.name = s := by
  simpa using List.find?_some h

end Direction

end FacetQuery
