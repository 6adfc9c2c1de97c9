import FacetQuery.Sql.Select
import FacetQuery.Sql.Statement

/-!
# Sql — The pieces of a query

Every expression and every clause as the pieces of its text, in order. There are no parentheses
but those around the items of `in`; a clause without content leaves no trace.

- `Select.inline` is a query's text with string values in quotes.
- `Select.positional` is its text with placeholders, beside their values.
-/

namespace FacetQuery.Sql

/-- `separated ps` joins groups of pieces by commas. -/
def separated : List (List Piece) → List Piece
  | [] => []
  | [ps] => ps
  | ps :: rest => ps ++ .plain ", " :: separated rest

/-- `pieces v` is the piece that spells the value `v`. -/
def Literal.pieces : Literal → List Piece
  | .int i => [.plain (integerText i)]
  | .float x => [.plain (Layout.plain.text x)]
  | .bool true => [.plain "true"]
  | .bool false => [.plain "false"]
  | .string s => [.parameter s]
  | .null => [.plain "null"]

/-- `text op` is `op` between its operands. -/
def Comparison.text : Comparison → String
  | .equal => " = "
  | .notEqual => " != "
  | .lessOrGreater => " <> "
  | .greater => " > "
  | .greaterOrEqual => " >= "
  | .less => " < "
  | .lessOrEqual => " <= "
  | .like => " like "
  | .notLike => " not like "
  | .ilike => " ilike "
  | .notIlike => " not ilike "

mutual

/-- `pieces e` spells the expression `e`. -/
def Expr.pieces : Expr → List Piece
  | .column name => [.identifier name]
  | .literal value => value.pieces
  | .and left right => left.pieces ++ .plain " and " :: right.pieces
  | .compare left op right => left.pieces ++ .plain op.text :: right.pieces
  | .member expr negated items =>
      expr.pieces ++ .plain (if negated then " not in " else " in ") :: .plain "("
        :: (separated (Expr.piecesOfEach items) ++ [.plain ")"])
  | .isNull expr negated =>
      expr.pieces ++ [.plain (if negated then " is not null" else " is null")]
  | .between expr negated low high =>
      expr.pieces ++ .plain (if negated then " not between " else " between ")
        :: (low.pieces ++ .plain " and " :: high.pieces)

/-- `piecesOfEach es` spells each expression of a list. -/
def Expr.piecesOfEach : List Expr → List (List Piece)
  | [] => []
  | e :: es => e.pieces :: Expr.piecesOfEach es

end

/-- `pieces t` is the name of the table, behind that of its schema if it has one. -/
def Table.pieces (t : Table) : List Piece :=
  match t.schema with
  | some schema => [.identifier schema, .plain ".", .identifier t.name]
  | none => [.identifier t.name]

/-- `pieces key` spells one key of an ordering. -/
def SortKey.pieces (key : SortKey) : List Piece :=
  key.target.pieces ++ [.plain (match key.direction with | .asc => " asc" | .desc => " desc")]

/-- `pieces l` spells the limit and the offset, as far as they are set. -/
def Limit.pieces (l : Limit) : List Piece :=
  (match l.limit with
    | some n => [.plain " limit ", .plain (naturalText n.toNat)]
    | none => [])
  ++ (match l.offset with
    | some n => [.plain " offset ", .plain (naturalText n.toNat)]
    | none => [])

namespace Select

/-- `columnPieces q` spells what is selected. -/
def columnPieces (q : Select) : List Piece :=
  match q.columns with
  | none => [.plain "*"]
  | some names => separated (names.map fun name => [.identifier name])

/-- `sourcePieces q` spells where it is selected from. -/
def sourcePieces (q : Select) : List Piece :=
  match q.source with
  | some table => .plain " " :: .plain "from " :: table.pieces
  | none => []

/-- `conditionPieces q` spells the condition unless it asks for nothing. -/
def conditionPieces (q : Select) : List Piece :=
  if q.condition.isTrue then [] else .plain " where " :: q.condition.pieces

/-- `orderPieces q` spells the ordering if there is one. -/
def orderPieces (q : Select) : List Piece :=
  match q.orderBy with
  | [] => []
  | keys => .plain " order by " :: separated (keys.map SortKey.pieces)

/-- `pieces q` spells the whole query. -/
def pieces (q : Select) : List Piece :=
  .plain "select " :: (q.columnPieces ++ q.sourcePieces ++ q.conditionPieces ++ q.orderPieces
    ++ q.limit.pieces)

/-- `render style q` is the text of `q` in a style, with the values of its placeholders. -/
def render (style : Style) (q : Select) : Statement :=
  .ofPieces style q.pieces

/-- `positional q` is the text of `q` with placeholders. -/
def positional (q : Select) : Statement :=
  q.render .positional

/-- `inline q` is the text of `q` with string values in quotes. -/
def inline (q : Select) : String :=
  (q.render .inline).text

end Select

end FacetQuery.Sql
