import FacetQuery.Proofs.Sql.Fenced
import FacetQuery.Proofs.Sql.Relabel

/-!
# Sql — Quoting is safe

Whatever the names and strings of a query are, a scan of its text gives them back unchanged and in
order, and nothing else of the text depends on them.

* `Select.identifiers_pieces`, `Select.parameters_pieces`: the pieces of a query write its names
  and its strings.
* `Select.pieces_blank`: the pieces of an emptied query are the emptied pieces.
* `Select.scan_render`: the scan of a whole query.
-/

namespace FacetQuery.Sql

namespace Piece

/-- `identifier? p` is the name that `p` writes. -/
def identifier? : Piece → Option String
  | identifier name => some name
  | _               => none

/-- `parameter? p` is the string value that `p` writes. -/
def parameter? : Piece → Option String
  | parameter value => some value
  | _               => none

/-- `blank p` is `p` with its name or its string emptied. -/
def blank : Piece → Piece
  | plain text   => plain text
  | identifier _ => identifier ""
  | parameter _  => parameter ""

theorem blank_eq_relabel : blank = relabel (fun _ => "") (fun _ => "") := by
  funext p
  cases p <;> rfl

end Piece

/-! ### What a scan reads -/

theorem Lexeme.filterMap_outside {α : Type} {f : Lexeme → Option α}
    (hf : ∀ c, f (.outside c) = none) (cs : List Char) : (cs.map .outside).filterMap f = [] := by
  simp [hf]

namespace Statement

/-- The names a scan reads are those that the pieces write, in both styles. -/
theorem identifiers_lexemes (s : Statement) (ps : List Piece) :
    (s.lexemes ps).filterMap Lexeme.identifier? = ps.filterMap Piece.identifier? := by
  have outside := Lexeme.filterMap_outside (f := Lexeme.identifier?) fun _ => rfl
  induction ps generalizing s with
  | nil => rfl
  | cons p ps ih =>
      rw [lexemes, List.filterMap_append, ih]
      cases p with
      | plain text      => rw [lexemesOf, outside]; rfl
      | identifier name => rfl
      | parameter value =>
          rw [lexemesOf]
          cases s.style with
          | positional => simp only [outside]; rfl
          | inline     => rfl

/-- The literals it reads are the strings of the pieces inline, and none behind placeholders. -/
theorem literals_lexemes (s : Statement) (ps : List Piece) :
    (s.lexemes ps).filterMap Lexeme.literal?
      = match s.style with
        | .positional => []
        | .inline     => ps.filterMap Piece.parameter? := by
  have outside := Lexeme.filterMap_outside (f := Lexeme.literal?) fun _ => rfl
  induction ps generalizing s with
  | nil => cases s.style <;> rfl
  | cons p ps ih =>
      rw [lexemes, List.filterMap_append, ih, style_push]
      cases p with
      | plain text      => rw [lexemesOf, outside]; cases s.style <;> rfl
      | identifier name => cases s.style <;> rfl
      | parameter value =>
          rw [lexemesOf]
          cases s.style with
          | positional => simp only [outside]; rfl
          | inline     => rfl

/-- Pieces with one blank are of one kind, and so read alike but for what is quoted. -/
theorem blank_lexemesOf {s s' : Statement} {p p' : Piece} (hstyle : s'.style = s.style)
    (hindex : s'.index = s.index) (h : p'.blank = p.blank) :
    (s'.lexemesOf p').map Lexeme.blank = (s.lexemesOf p).map Lexeme.blank := by
  cases p <;> cases p' <;> simp only [Piece.blank, reduceCtorEq, Piece.plain.injEq] at h
  case plain.plain           => rw [h]; rfl
  case identifier.identifier => rfl
  case parameter.parameter   =>
    simp only [lexemesOf, hstyle, placeholder, hindex]
    cases s.style <;> rfl

/-- Pieces with one blank count alike towards the numbers of the placeholders. -/
theorem index_push_of_blank_eq {s s' : Statement} {p p' : Piece} (hstyle : s'.style = s.style)
    (hindex : s'.index = s.index) (h : p'.blank = p.blank) :
    (s'.push p').index = (s.push p).index := by
  cases p <;> cases p' <;> simp only [Piece.blank, reduceCtorEq, Piece.plain.injEq] at h
  case plain.plain           => exact hindex
  case identifier.identifier => exact hindex
  case parameter.parameter   =>
    rw [push, push, hstyle]
    cases s.style with
    | positional => exact congrArg (· + 1) hindex
    | inline     => exact hindex

/-- Pieces that differ in names and strings only are read alike but for what is quoted. Placeholders
count alike, so their numbers agree too. -/
theorem blank_lexemes {s s' : Statement} {ps ps' : List Piece} (hstyle : s'.style = s.style)
    (hindex : s'.index = s.index) (h : ps'.map Piece.blank = ps.map Piece.blank) :
    (s'.lexemes ps').map Lexeme.blank = (s.lexemes ps).map Lexeme.blank := by
  induction ps generalizing s s' ps' with
  | nil =>
      obtain rfl : ps' = [] := List.map_eq_nil_iff.mp h
      rfl
  | cons p ps ih =>
      obtain ⟨p', ps', rfl, hp, hps⟩ := List.map_eq_cons_iff.mp h
      -- Both statements go on in one style and from one index.
      have style : (s'.push p').style = (s.push p).style := by
        rw [style_push, style_push, hstyle]
      have index := index_push_of_blank_eq hstyle hindex hp
      rw [lexemes, lexemes, List.map_append, List.map_append, blank_lexemesOf hstyle hindex hp,
        ih style index hps]

end Statement

/-! ### What the pieces of a query write -/

theorem filterMap_separated {α : Type} {f : Piece → Option α}
    (hf : ∀ text, f (.plain text) = none) :
    ∀ pss : List (List Piece), (separated pss).filterMap f = pss.flatMap (·.filterMap f)
  | []               => rfl
  | [ps]             => by simp [separated]
  | ps :: ps' :: pss => by
      rw [separated_cons_cons, List.filterMap_append, List.filterMap_cons, hf, List.flatMap_cons,
        filterMap_separated hf (ps' :: pss)]

namespace Expr

/-- `Agree f g`: of a piece `f` picks what `g` picks of the leaf that the piece writes. -/
structure Agree (f : Piece → Option String) (g : Expr → Option String) : Prop where
  plain   : ∀ text, f (.plain text) = none
  column  : ∀ name, f (.identifier name) = g (.column name)
  literal : ∀ value : Literal, value.pieces.filterMap f = (g (.literal value)).toList

mutual

/-- An expression writes what its leaves write, in order. Induction on the expression: plain text
between its parts is not picked. -/
theorem Agree.filterMap_pieces {f : Piece → Option String} {g : Expr → Option String}
    (h : Agree f g) : ∀ e : Expr, e.pieces.filterMap f = e.leaves.filterMap g
  | .column name                   => by simp [pieces, leaves, List.filterMap_cons, h.column]
  | .literal value                 => by
      rw [pieces, leaves, h.literal]
      cases hv : g (.literal value) <;> simp [hv]
  | .and left right                => by
      simp [pieces, leaves, h.plain, h.filterMap_pieces left, h.filterMap_pieces right]
  | .compare left op right         => by
      simp [pieces, leaves, h.plain, h.filterMap_pieces left, h.filterMap_pieces right]
  | .member expr negated items     => by
      simp [pieces, leaves, h.plain, filterMap_separated h.plain, h.filterMap_pieces expr,
        h.filterMap_piecesOfEach items]
  | .isNull expr negated           => by
      simp [pieces, leaves, h.plain, h.filterMap_pieces expr]
  | .between expr negated low high => by
      simp [pieces, leaves, h.plain, h.filterMap_pieces expr, h.filterMap_pieces low,
        h.filterMap_pieces high]

theorem Agree.filterMap_piecesOfEach {f : Piece → Option String} {g : Expr → Option String}
    (h : Agree f g) : ∀ es : List Expr,
      (piecesOfEach es).flatMap (·.filterMap f) = (leavesOfEach es).filterMap g
  | []      => rfl
  | e :: es => by
      rw [piecesOfEach, leavesOfEach, List.flatMap_cons, List.filterMap_append,
        h.filterMap_pieces e, h.filterMap_piecesOfEach es]

end

theorem agree_identifier? : Agree Piece.identifier? name? where
  plain _   := rfl
  column _  := rfl
  literal v := by
    cases v with
    | bool b => cases b <;> rfl
    | _      => rfl

theorem agree_parameter? : Agree Piece.parameter? string? where
  plain _   := rfl
  column _  := rfl
  literal v := by
    cases v with
    | bool b => cases b <;> rfl
    | _      => rfl

end Expr

/-! ### Queries -/

theorem Table.identifiers_pieces (t : Table) : t.pieces.filterMap Piece.identifier? = t.names := by
  obtain ⟨schema, name⟩ := t
  cases schema <;> rfl

theorem Table.parameters_pieces (t : Table) : t.pieces.filterMap Piece.parameter? = [] := by
  obtain ⟨schema, name⟩ := t
  cases schema <;> rfl

/-- Of a key, only the target has something to pick; the direction is plain text. -/
theorem SortKey.filterMap_pieces {f : Piece → Option String} {g : Expr → Option String}
    (h : Expr.Agree f g) (key : SortKey) :
    key.pieces.filterMap f = key.target.leaves.filterMap g := by
  simp [pieces, h.filterMap_pieces, h.plain]

theorem Limit.filterMap_pieces {f : Piece → Option String} (plain : ∀ text, f (.plain text) = none)
    (l : Limit) : l.pieces.filterMap f = [] := by
  obtain ⟨limit, offset⟩ := l
  cases limit <;> cases offset <;> simp [pieces, plain]

namespace Select

section Clauses

variable {f : Piece → Option String} {g : Expr → Option String} (h : Expr.Agree f g) (q : Select)

include h

/-- The `where` clause writes what its condition writes. It is left out for `true`, which has no
names and no strings. -/
theorem filterMap_conditionPieces :
    q.conditionPieces.filterMap f = q.condition.leaves.filterMap g := by
  rw [conditionPieces]
  split
  · next hc =>
      -- What is not written holds no name and no string.
      have nothing := h.literal (.bool true)
      rw [Expr.isTrue_iff.mp hc, Expr.leaves, List.filterMap_cons]
      cases hv : g (.literal (.bool true)) with
      | none   => rfl
      | some v => simp [Literal.pieces, h.plain, hv] at nothing
  · simp [h.plain, h.filterMap_pieces]

theorem filterMap_orderPieces :
    q.orderPieces.filterMap f = q.orderBy.flatMap (·.target.leaves.filterMap g) := by
  rw [orderPieces]
  split
  · next hk => rw [hk]; rfl
  · rw [List.filterMap_cons, h.plain]
    simp only [filterMap_separated h.plain, List.flatMap_map, SortKey.filterMap_pieces h]

end Clauses

/-- The columns are written as they are listed, or as `*`, which is no name. -/
theorem identifiers_columnPieces (q : Select) :
    q.columnPieces.filterMap Piece.identifier? = q.columns.getD [] := by
  rw [columnPieces]
  split
  · next hq => rw [hq]; rfl
  · next names hq =>
      rw [hq, filterMap_separated fun _ => rfl, List.flatMap_map]
      exact List.flatMap_singleton' names

theorem parameters_columnPieces (q : Select) :
    q.columnPieces.filterMap Piece.parameter? = [] := by
  rw [columnPieces]
  split
  · rfl
  · rw [filterMap_separated fun _ => rfl, List.flatMap_map]
    exact List.flatMap_eq_nil_iff.mpr fun _ _ => rfl

/-- The names that a query writes are its names, in order: columns, table, condition, ordering.
Limits have none. -/
theorem identifiers_pieces (q : Select) : q.pieces.filterMap Piece.identifier? = q.names := by
  have source : q.sourcePieces.filterMap Piece.identifier?
      = q.source.toList.flatMap Table.names := by
    rw [sourcePieces]
    split
    · next t hq => rw [hq]; simp [Piece.identifier?, List.filterMap_cons, t.identifiers_pieces]
    · next hq => rw [hq]; rfl
  have condition := filterMap_conditionPieces Expr.agree_identifier? q
  have order := filterMap_orderPieces Expr.agree_identifier? q
  have limit := Limit.filterMap_pieces (f := Piece.identifier?) (fun _ => rfl) q.limit
  rw [pieces, List.filterMap_cons_none rfl]
  simp only [List.filterMap_append, identifiers_columnPieces, source, condition, order, limit,
    List.append_nil]
  rfl

/-- The strings that a query writes are its strings, in order. -/
theorem parameters_pieces (q : Select) : q.pieces.filterMap Piece.parameter? = q.strings := by
  have source : q.sourcePieces.filterMap Piece.parameter? = [] := by
    rw [sourcePieces]
    split
    · next t _ => simp [Piece.parameter?, List.filterMap_cons, t.parameters_pieces]
    · rfl
  have condition := filterMap_conditionPieces Expr.agree_parameter? q
  have order := filterMap_orderPieces Expr.agree_parameter? q
  have limit := Limit.filterMap_pieces (f := Piece.parameter?) (fun _ => rfl) q.limit
  rw [pieces, List.filterMap_cons_none rfl]
  simp only [List.filterMap_append, parameters_columnPieces, source, condition, order, limit,
    List.append_nil, List.nil_append]
  rfl

/-- The pieces of a query whose names and strings are emptied are its pieces, emptied. -/
theorem pieces_blank (q : Select) : q.blank.pieces = q.pieces.map Piece.blank := by
  rw [blank_eq_relabel, pieces_relabel, Piece.blank_eq_relabel]

/-- **A scan of a query** reads the lexemes of its pieces, one after the other. All pieces are
fenced, so none of them is read together with the next. -/
theorem scan_text_render (style : Style) (q : Select) :
    scan (q.render style).text = some ((Statement.empty style).lexemes q.pieces) :=
  q.fenced_pieces (Statement.empty style) [] rfl

/-- **Quoting is safe.**  A scan of any query, in either style, ends outside every quoted token.
The identifiers it reads are the names of the query; the literals are its strings, none if they
stand behind placeholders; and a query that differs in nothing but the contents of names and
strings is read alike, character by character, but for what is quoted. -/
theorem scan_render (style : Style) (q : Select) :
    ∃ ts, scan (q.render style).text = some ts
      ∧ ts.filterMap Lexeme.identifier? = q.names
      ∧ ts.filterMap Lexeme.literal? = (match style with | .positional => [] | .inline => q.strings)
      ∧ ∀ q' : Select, q'.blank = q.blank →
          ∃ ts', scan (q'.render style).text = some ts'
            ∧ ts'.map Lexeme.blank = ts.map Lexeme.blank := by
  refine ⟨_, scan_text_render style q, ?_, ?_, fun q' h => ⟨_, scan_text_render style q', ?_⟩⟩
  · rw [Statement.identifiers_lexemes, identifiers_pieces]
  · rw [Statement.literals_lexemes, parameters_pieces]
    rfl
  · refine Statement.blank_lexemes rfl rfl ?_
    rw [← pieces_blank, ← pieces_blank, h]

end Select

end FacetQuery.Sql
