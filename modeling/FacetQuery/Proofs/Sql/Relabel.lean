import FacetQuery.Proofs.Sql.Names
import FacetQuery.Sql.Pieces

/-!
# Sql — Changing the names and strings of a query

`relabel f g` changes every name by `f` and every string value by `g`, and nothing else.

* `Piece.relabel`, `Expr.relabel`, `Select.relabel`: pieces, expressions and queries relabelled.
* `Expr.pieces_relabel`, `Select.pieces_relabel`: the pieces of what is relabelled are the
  relabelled pieces.
* `Select.blank_eq_relabel`: emptying names and strings is one case of it.
-/

namespace FacetQuery.Sql

/-! ### Relabelling -/

/-- `relabel f g p` is `p` with a name changed by `f` and a string by `g`. -/
def Piece.relabel (f g : String → String) : Piece → Piece
  | .plain text      => .plain text
  | .identifier name => .identifier (f name)
  | .parameter value => .parameter (g value)

/-- `relabel g v` is `v` with a string changed by `g`. -/
def Literal.relabel (g : String → String) : Literal → Literal
  | .string s => .string (g s)
  | value     => value

namespace Expr

mutual

/-- `relabel f g e` is `e` with its names changed by `f` and its strings by `g`. -/
def relabel (f g : String → String) : Expr → Expr
  | .column name                   => .column (f name)
  | .literal value                 => .literal (value.relabel g)
  | .and left right                => .and (left.relabel f g) (right.relabel f g)
  | .compare left op right         => .compare (left.relabel f g) op (right.relabel f g)
  | .member expr negated items     => .member (expr.relabel f g) negated (relabelEach f g items)
  | .isNull expr negated           => .isNull (expr.relabel f g) negated
  | .between expr negated low high =>
      .between (expr.relabel f g) negated (low.relabel f g) (high.relabel f g)

/-- `relabelEach f g es` relabels all expressions of a list. -/
def relabelEach (f g : String → String) : List Expr → List Expr
  | []      => []
  | e :: es => e.relabel f g :: relabelEach f g es

end

end Expr

/-- `relabel f t` is `t` with its names changed by `f`. -/
def Table.relabel (f : String → String) (t : Table) : Table := ⟨t.schema.map f, f t.name⟩

/-- `relabel f g key` is `key` with its target relabelled. -/
def SortKey.relabel (f g : String → String) (key : SortKey) : SortKey :=
  ⟨key.target.relabel f g, key.direction⟩

/-- `relabel f g q` is `q` with its names changed by `f` and its strings by `g`. -/
def Select.relabel (f g : String → String) (q : Select) : Select where
  columns := q.columns.map (·.map f)
  source := q.source.map (Table.relabel f)
  condition := q.condition.relabel f g
  orderBy := q.orderBy.map (SortKey.relabel f g)
  limit := q.limit

/-! ### Pieces -/

variable (f g : String → String)

theorem separated_cons_cons (ps ps' : List Piece) (pss : List (List Piece)) :
    separated (ps :: ps' :: pss) = ps ++ .plain ", " :: separated (ps' :: pss) := rfl

/-- The commas between groups of pieces are plain text, which no relabelling changes. -/
theorem map_relabel_separated : ∀ pss : List (List Piece),
    (separated pss).map (Piece.relabel f g) = separated (pss.map (·.map (Piece.relabel f g)))
  | []               => rfl
  | [ps]             => rfl
  | ps :: ps' :: pss => by
      rw [separated_cons_cons, List.map_append, List.map_cons, map_relabel_separated (ps' :: pss)]
      rfl

/-- Only a string is a piece that is changed; any other value is plain text. -/
theorem Literal.pieces_relabel (value : Literal) :
    (value.relabel g).pieces = value.pieces.map (Piece.relabel f g) := by
  cases value with
  | bool b => cases b <;> rfl
  | _      => rfl

namespace Expr

theorem relabelEach_eq_map (es : List Expr) : relabelEach f g es = es.map (relabel f g) := by
  induction es with
  | nil => rfl
  | cons e es ih => rw [relabelEach, ih, List.map_cons]

mutual

/-- **The pieces of a relabelled expression** are its pieces, relabelled. Induction on the
expression, together with the list of its items. -/
theorem pieces_relabel : ∀ e : Expr, (e.relabel f g).pieces = e.pieces.map (Piece.relabel f g)
  | .column _                      => rfl
  | .literal value                 => Literal.pieces_relabel f g value
  | .and left right                => by
      simp [pieces, relabel, Piece.relabel, pieces_relabel left, pieces_relabel right]
  | .compare left op right         => by
      simp [pieces, relabel, Piece.relabel, pieces_relabel left, pieces_relabel right]
  | .member expr negated items     => by
      simp [pieces, relabel, Piece.relabel, map_relabel_separated, pieces_relabel expr,
        piecesOfEach_relabel items]
  | .isNull expr negated           => by
      simp [pieces, relabel, Piece.relabel, pieces_relabel expr]
  | .between expr negated low high => by
      simp [pieces, relabel, Piece.relabel, pieces_relabel expr, pieces_relabel low,
        pieces_relabel high]

theorem piecesOfEach_relabel : ∀ es : List Expr,
    piecesOfEach (relabelEach f g es) = (piecesOfEach es).map (·.map (Piece.relabel f g))
  | []      => rfl
  | e :: es => by
      rw [relabelEach, piecesOfEach, piecesOfEach, List.map_cons, pieces_relabel e,
        piecesOfEach_relabel es]

end

/-- Relabelling neither makes a condition `true` nor keeps one from being it. -/
@[simp] theorem isTrue_relabel (e : Expr) : (e.relabel f g).isTrue = e.isTrue := by
  cases e with
  | literal value => cases value <;> rfl
  | _             => rfl

end Expr

theorem Table.pieces_relabel (t : Table) :
    (t.relabel f).pieces = t.pieces.map (Piece.relabel f g) := by
  obtain ⟨schema, name⟩ := t
  cases schema <;> rfl

theorem SortKey.pieces_relabel (key : SortKey) :
    (key.relabel f g).pieces = key.pieces.map (Piece.relabel f g) := by
  simp [pieces, relabel, Expr.pieces_relabel, Piece.relabel]

theorem Limit.map_relabel_pieces (l : Limit) : l.pieces.map (Piece.relabel f g) = l.pieces := by
  obtain ⟨limit, offset⟩ := l
  cases limit <;> cases offset <;> rfl

namespace Select

/-- **The pieces of a relabelled query** are its pieces, relabelled, clause by clause. Whether there
is a clause does not depend on names or strings. -/
theorem pieces_relabel (q : Select) :
    (q.relabel f g).pieces = q.pieces.map (Piece.relabel f g) := by
  have columns : (q.relabel f g).columnPieces = q.columnPieces.map (Piece.relabel f g) := by
    obtain ⟨columns, _, _, _, _⟩ := q
    cases columns with
    | none       => rfl
    | some names =>
        simp [columnPieces, relabel, map_relabel_separated, Piece.relabel, Function.comp_def]
  have source : (q.relabel f g).sourcePieces = q.sourcePieces.map (Piece.relabel f g) := by
    obtain ⟨_, source, _, _, _⟩ := q
    cases source with
    | none   => rfl
    | some t => simp [sourcePieces, relabel, Piece.relabel, t.pieces_relabel f g]
  have condition :
      (q.relabel f g).conditionPieces = q.conditionPieces.map (Piece.relabel f g) := by
    simp only [conditionPieces, relabel, Expr.isTrue_relabel]
    split
    · rfl
    · simp [Piece.relabel, Expr.pieces_relabel]
  have order : (q.relabel f g).orderPieces = q.orderPieces.map (Piece.relabel f g) := by
    obtain ⟨_, _, _, orderBy, _⟩ := q
    cases orderBy with
    | nil      => rfl
    | cons _ _ =>
        simp [orderPieces, relabel, map_relabel_separated, Piece.relabel, SortKey.pieces_relabel,
          Function.comp_def]
  simp only [pieces, columns, source, condition, order, List.map_cons, List.map_append,
    Limit.map_relabel_pieces]
  rfl

end Select

/-! ### Emptying names and strings -/

mutual

/-- Emptying an expression changes every name and every string to the empty one. -/
theorem Expr.blank_eq_relabel : ∀ e : Expr, e.blank = e.relabel (fun _ => "") (fun _ => "")
  | .column _                      => rfl
  | .literal value                 => by cases value <;> rfl
  | .and left right                => by
      rw [blank, relabel, blank_eq_relabel left, blank_eq_relabel right]
  | .compare left op right         => by
      rw [blank, relabel, blank_eq_relabel left, blank_eq_relabel right]
  | .member expr negated items     => by
      rw [blank, relabel, blank_eq_relabel expr, blankEach_eq_relabelEach items]
  | .isNull expr negated           => by rw [blank, relabel, blank_eq_relabel expr]
  | .between expr negated low high => by
      rw [blank, relabel, blank_eq_relabel expr, blank_eq_relabel low, blank_eq_relabel high]

theorem Expr.blankEach_eq_relabelEach : ∀ es : List Expr,
    blankEach es = relabelEach (fun _ => "") (fun _ => "") es
  | []      => rfl
  | e :: es => by rw [blankEach, relabelEach, blank_eq_relabel e, blankEach_eq_relabelEach es]

end

/-- **Emptying is relabelling**, so what holds of all relabelled queries holds of the emptied one.
-/
theorem Select.blank_eq_relabel (q : Select) :
    q.blank = q.relabel (fun _ => "") (fun _ => "") := by
  have keys : SortKey.blank = SortKey.relabel (fun _ => "") (fun _ => "") := by
    funext key
    rw [SortKey.blank, SortKey.relabel, Expr.blank_eq_relabel]
  rw [blank, relabel, Expr.blank_eq_relabel, keys]
  rfl

end FacetQuery.Sql
