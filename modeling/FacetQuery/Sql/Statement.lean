import FacetQuery.Decimal.Layout

/-!
# Sql — Statements

SQL text is made of pieces: plain text, identifiers, and string parameters. A statement collects
pieces in one of two styles, with placeholders for the parameters or with the parameters in quotes.

- `Statement.push` writes one piece; only a parameter is written differently by style.
- `doubled` writes each quote inside a quoted piece twice, so that the piece ends at a single one.
-/

namespace FacetQuery.Sql

/-- A piece of SQL text. -/
inductive Piece where
  /-- Keywords, operators, numbers and punctuation. -/
  | plain (text : String)
  /-- The name of a schema, a table or a column. -/
  | identifier (name : String)
  /-- A string value. -/
  | parameter (value : String)
deriving DecidableEq, Repr

/-- How string values are written. -/
inductive Style where
  /-- `$1`, `$2` and so on, with the values collected beside the text. -/
  | positional
  /-- In single quotes within the text. -/
  | inline
deriving DecidableEq, Repr

/-- `doubled q cs` writes every `q` in `cs` twice. -/
def doubled (q : Char) : List Char → List Char
  | [] => []
  | c :: cs => if c = q then q :: q :: doubled q cs else c :: doubled q cs

/-- `quoted q s` is `s` between quotes `q`, those inside written twice. -/
def quoted (q : Char) (s : String) : String :=
  String.ofList (q :: (doubled q s.toList ++ [q]))

/-- SQL text in the making. -/
structure Statement where
  style : Style
  text : String
  /-- The values of the placeholders, in their order. -/
  params : List String
  /-- The number of the last placeholder. -/
  index : Nat
deriving DecidableEq, Repr

namespace Statement

/-- `empty style` has no text yet. -/
def empty (style : Style) : Statement := ⟨style, "", [], 0⟩

/-- `push s p` writes the piece `p` at the end of `s`. -/
def push (s : Statement) : Piece → Statement
  | .plain text => { s with text := s.text ++ text }
  | .identifier name => { s with text := s.text ++ quoted '"' name }
  | .parameter value =>
      match s.style with
      | .positional =>
          { s with
            text := s.text ++ "$" ++ naturalText (s.index + 1)
            params := s.params ++ [value]
            index := s.index + 1 }
      | .inline => { s with text := s.text ++ quoted '\x27' value }

/-- `append s ps` writes the pieces `ps` one after another. -/
def append (s : Statement) (pieces : List Piece) : Statement :=
  pieces.foldl push s

/-- `ofPieces style ps` is the statement made of the pieces `ps`. -/
def ofPieces (style : Style) (pieces : List Piece) : Statement :=
  (empty style).append pieces

@[simp] theorem append_nil (s : Statement) : s.append [] = s := rfl

theorem append_append (s : Statement) (ps qs : List Piece) :
    s.append (ps ++ qs) = (s.append ps).append qs :=
  List.foldl_append

@[simp] theorem style_push (s : Statement) (p : Piece) : (s.push p).style = s.style := by
  cases p with
  | plain _ => rfl
  | identifier _ => rfl
  | parameter _ => simp only [push]; split <;> rfl

end Statement

end FacetQuery.Sql
