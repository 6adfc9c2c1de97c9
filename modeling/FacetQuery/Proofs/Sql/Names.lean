import FacetQuery.Sql.Select

/-!
# Sql — The names and strings in a query

What a query holds besides its structure: the names of the schema, the table and the columns, and
the values of strings, each in the order in which the clauses are written.

* `Expr.leaves`: the columns and literals of an expression; `Expr.names` and `Expr.strings` pick
  the names and the string values among them.
* `Expr.operands`: what a column is compared with.
* `Select.names`, `Select.strings`: those of a whole query.
* `Select.blank`: the query with every name and every string value emptied.  Two queries have one
  blank exactly if they differ in nothing but the contents of names and strings.
-/

namespace FacetQuery.Sql

namespace Expr

mutual

/-- `leaves e` are the columns and literals of `e`, from left to right. -/
def leaves : Expr → List Expr
  | .column name              => [.column name]
  | .literal value            => [.literal value]
  | .and left right           => left.leaves ++ right.leaves
  | .compare left _ right     => left.leaves ++ right.leaves
  | .member expr _ items      => expr.leaves ++ leavesOfEach items
  | .isNull expr _            => expr.leaves
  | .between expr _ low high  => expr.leaves ++ (low.leaves ++ high.leaves)

/-- `leavesOfEach es` are the columns and literals of all expressions of a list. -/
def leavesOfEach : List Expr → List Expr
  | []      => []
  | e :: es => e.leaves ++ leavesOfEach es

end

/-- `name? e` is the name of a column. -/
def name? : Expr → Option String
  | .column name => some name
  | _            => none

/-- `string? e` is the value of a string. -/
def string? : Expr → Option String
  | .literal (.string s) => some s
  | _                    => none

/-- `operands e` are the expressions that stand on the right of an operator other than `and`. -/
def operands : Expr → List Expr
  | .column _ | .literal _    => []
  | .and left right           => left.operands ++ right.operands
  | .compare left _ right     => left.operands ++ [right]
  | .member expr _ items      => expr.operands ++ items
  | .isNull expr _            => expr.operands
  | .between expr _ low high  => expr.operands ++ [low, high]

/-- `names e` are the names of the columns in `e`. -/
def names (e : Expr) : List String := e.leaves.filterMap name?

/-- `strings e` are the string values in `e`. -/
def strings (e : Expr) : List String := e.leaves.filterMap string?

mutual

/-- `blank e` is `e` with its names and strings emptied. -/
def blank : Expr → Expr
  | .column _                      => .column ""
  | .literal (.string _)           => .literal (.string "")
  | .literal value                 => .literal value
  | .and left right                => .and left.blank right.blank
  | .compare left op right         => .compare left.blank op right.blank
  | .member expr negated items     => .member expr.blank negated (blankEach items)
  | .isNull expr negated           => .isNull expr.blank negated
  | .between expr negated low high => .between expr.blank negated low.blank high.blank

/-- `blankEach es` empties the names and strings of all expressions of a list. -/
def blankEach : List Expr → List Expr
  | []      => []
  | e :: es => e.blank :: blankEach es

end

end Expr

/-- `names t` is the name of the table, behind that of its schema if it has one. -/
def Table.names (t : Table) : List String := t.schema.toList ++ [t.name]

/-- `blank t` is `t` with its names emptied. -/
def Table.blank (t : Table) : Table := ⟨t.schema.map fun _ => "", ""⟩

/-- `blank key` is `key` with the names and strings of its target emptied. -/
def SortKey.blank (key : SortKey) : SortKey := ⟨key.target.blank, key.direction⟩

namespace Select

/-- `names q` are the names in `q`: columns, schema and table, condition, ordering. -/
def names (q : Select) : List String :=
  q.columns.getD [] ++ q.source.toList.flatMap Table.names ++ q.condition.names
    ++ q.orderBy.flatMap (·.target.names)

/-- `strings q` are the string values in `q`: condition, ordering. -/
def strings (q : Select) : List String :=
  q.condition.strings ++ q.orderBy.flatMap (·.target.strings)

/-- `blank q` is `q` with every name and every string value emptied. -/
def blank (q : Select) : Select where
  columns := q.columns.map (·.map fun _ => "")
  source := q.source.map Table.blank
  condition := q.condition.blank
  orderBy := q.orderBy.map SortKey.blank
  limit := q.limit

end Select

end FacetQuery.Sql
