import FacetQuery.Backend.Basic
import FacetQuery.Sql.Select

/-!
# Backend — SQL

The backend that builds `Sql.Select` queries, for a dialect with all operators or only some.

- `Literal.ofValue`: the SQL value of a JSON value; arrays and objects have none.
- `Predicate.toExpr`: the condition that a predicate asks for. Membership in an empty list becomes
  a constant, since an empty list is not written in SQL.
-/

namespace FacetQuery

open Sql

/-- `ofNumber n` is the SQL value of a number: an integer if it fits 64 bits with a sign. -/
def Sql.Literal.ofNumber : Json.Number → Sql.Literal
  | .whole i => if i.val < 0x8000000000000000 then .int i.val else .float (.ofInt i.val)
  | .real x _ => .float x

/-- `ofValue v` is the SQL value of a JSON value. -/
def Sql.Literal.ofValue : Json.Value → Except Refusal Sql.Literal
  | .null => .ok .null
  | .bool b => .ok (.bool b)
  | .number n => .ok (.ofNumber n)
  | .string s => .ok (.string s)
  | .array _ => .error (.inexpressible .nestedArray)
  | .object _ => .error (.inexpressible .object)

/-- `ofValue v` is the SQL value of a JSON value as an expression. -/
def Sql.Expr.ofValue (v : Json.Value) : Except Refusal Expr :=
  (Literal.ofValue v).map .literal

namespace Predicate

/-- `items p` is the array that a set or range operator needs. -/
def items (p : Predicate) : Except Refusal (List Json.Value) :=
  match p.value with
  | .array items => .ok items
  | _ => .error (.inexpressible (.notArray p.op))

/-- `comparison p op` compares the field with the value. -/
def comparison (p : Predicate) (op : Comparison) : Except Refusal Expr := do
  return .compare (.column p.field) op (← Expr.ofValue p.value)

/-- `membership p negated` looks the field up in the list. -/
def membership (p : Predicate) (negated : Bool) : Except Refusal Expr := do
  match ← p.items with
  | [] => return .constant negated
  | items => return .member (.column p.field) negated (← items.mapM Expr.ofValue)

/-- `range p negated` places the field between the first two bounds; others are not looked at. -/
def range (p : Predicate) (negated : Bool) : Except Refusal Expr := do
  match ← p.items with
  | low :: high :: _ =>
      let low ← Expr.ofValue low
      let high ← Expr.ofValue high
      return .between (.column p.field) negated low high
  | _ => .error (.inexpressible (.missingBounds p.op))

/-- `toExpr p` is the condition that `p` asks for. -/
def toExpr (p : Predicate) : Except Refusal Expr :=
  match p.op with
  | .equal => p.comparison .equal
  | .notEqual => p.comparison .notEqual
  | .lessOrGreater => p.comparison .lessOrGreater
  | .greater => p.comparison .greater
  | .greaterOrEqual => p.comparison .greaterOrEqual
  | .less => p.comparison .less
  | .lessOrEqual => p.comparison .lessOrEqual
  | .like => p.comparison .like
  | .notLike => p.comparison .notLike
  | .ilike => p.comparison .ilike
  | .notIlike => p.comparison .notIlike
  | .isNull => .ok (.isNull (.column p.field) false)
  | .isNotNull => .ok (.isNull (.column p.field) true)
  | .isIn => p.membership false
  | .isNotIn => p.membership true
  | .between => p.range false
  | .notBetween => p.range true

end Predicate

namespace Backend

/-- `ofDialect v` builds SQL with the operations that `v` knows. -/
def ofDialect (v : Validator) : Backend Select where
  validator := v
  filter p := do
    Build.ofExcept (v.require (.filter p.op))
    let condition ← Build.ofExcept p.toExpr
    modify (·.filter condition)
  sort s := do
    Build.ofExcept (v.require .sort)
    modify (·.orderedBy ⟨.column s.field, s.order⟩)
  page p := do
    Build.ofExcept (v.require .page)
    modify (·.limitedTo ⟨some p.size, some p.offset⟩)

/-- SQL with every operator. -/
def sql : Backend Select :=
  ofDialect .full

/-- `sqlWith ops` builds SQL for a dialect that has the filter operators `ops`. -/
def sqlWith (ops : List Operator) : Backend Select :=
  ofDialect (.ofOperators ops)

end Backend

end FacetQuery
