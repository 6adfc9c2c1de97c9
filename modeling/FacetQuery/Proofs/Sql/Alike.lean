import FacetQuery.Proofs.Sql.Built
import FacetQuery.Proofs.Sql.Legible

/-!
# Sql — Queries that look alike

An integer and a double can have one text, and no text of a query can tell them apart.  Two queries
are alike if they differ in nothing else.

* `Literal.Alike`, `Test.Alike`, `Select.Alike`: values, tests and queries that are alike.
* `Select.conditionPieces_eq`, `Select.orderPieces_eq`: the clauses of a query as chains.
* `Select.Alike.pieces_eq`: queries that are alike have the same pieces.
-/

namespace FacetQuery.Sql

/-! ### Alike -/

/-- `numeral? v` is the text of a number. -/
def Literal.numeral? : Literal → Option String
  | .int i   => some (integerText i)
  | .float x => some (Layout.plain.text x)
  | _        => none

/-- `Alike v v'` says that `v` and `v'` are one value, or two numbers with one text. -/
def Literal.Alike (v v' : Literal) : Prop :=
  v = v' ∨ ∃ text, v.numeral? = some text ∧ v'.numeral? = some text

/-- `Alike c c'` says that `c` and `c'` ask the same of values that are alike. -/
inductive Check.Alike : Check → Check → Prop where
  | compare {v v' : Literal} (op : Comparison) : v.Alike v' → Alike (.compare op v) (.compare op v')
  | isNull (negated : Bool) : Alike (.isNull negated) (.isNull negated)
  | member {v v' : Literal} {more more' : List Literal} (negated : Bool) : v.Alike v' →
      List.Forall₂ Literal.Alike more more' →
      Alike (.member negated v more) (.member negated v' more')
  | between {low low' high high' : Literal} (negated : Bool) : low.Alike low' → high.Alike high' →
      Alike (.between negated low high) (.between negated low' high')

/-- `Alike t t'` says that `t` and `t'` are one constant, or ask of one column what is alike. -/
inductive Test.Alike : Test → Test → Prop where
  | constant (holds : Bool) : Alike (.constant holds) (.constant holds)
  | column {c c' : Check} (name : String) : c.Alike c' → Alike (.column name c) (.column name c')

/-- `Alike q q'` says that `q` and `q'` have the same parts, and as their conditions tests that are
alike, in the same order. -/
structure Select.Alike (q q' : Select) : Prop where
  columns : q.columns = q'.columns
  source : q.source = q'.source
  condition : ∃ ts ts' : List Test, q.condition = .all (ts.map Test.toExpr) ∧
    q'.condition = .all (ts'.map Test.toExpr) ∧ List.Forall₂ Test.Alike ts ts'
  orderBy : q.orderBy = q'.orderBy
  limit : q.limit = q'.limit

/-! ### Clauses -/

theorem Expr.piecesOfEach_eq_map (es : List Expr) : piecesOfEach es = es.map Expr.pieces := by
  induction es with
  | nil => rfl
  | cons e es ih => rw [piecesOfEach, ih, List.map_cons]

/-- Conditions joined one by one are written one behind the other, with ` and ` in front of each but
the first. -/
theorem Expr.pieces_foldl_and (es : List Expr) (e : Expr) :
    (es.foldl .and e).pieces = e.pieces ++ many " and " (es.map Expr.pieces) := by
  induction es generalizing e with
  | nil => exact (List.append_nil _).symm
  | cons e' es ih =>
      rw [List.foldl_cons, ih, pieces, List.append_assoc, List.map_cons, many_cons]
      rfl

namespace Select

/-- The `where` clause is a chain of its tests; a query without tests has none. -/
theorem conditionPieces_eq {q : Select} {ts : List Test}
    (h : q.condition = .all (ts.map Test.toExpr)) :
    q.conditionPieces = chain " where " " and " (ts.map fun t => t.toExpr.pieces) := by
  rw [conditionPieces, h]
  cases ts with
  | nil       => rfl
  | cons t ts =>
      have hall : (Expr.all ((t :: ts).map Test.toExpr)).isTrue = false :=
        Expr.isTrue_foldl_and _ t.isTrue_toExpr
      rw [hall, if_neg Bool.false_ne_true, List.map_cons, Expr.all, Expr.pieces_foldl_and,
        List.map_map]
      rfl

theorem orderPieces_eq (q : Select) :
    q.orderPieces = chain " order by " ", " (q.orderBy.map SortKey.pieces) := by
  rw [orderPieces]
  cases q.orderBy with
  | nil           => rfl
  | cons key keys => exact congrArg (_ :: ·) (separated_cons _ _)

end Select

/-! ### Pieces -/

/-- Lists that are related item by item are mapped to one list, if related items have one image. -/
theorem map_eq_map_of_forall₂ {α β : Type} {R : α → α → Prop} {f : α → β} {as as' : List α}
    (h : List.Forall₂ R as as') (hf : ∀ a a', R a a' → f a = f a') : as.map f = as'.map f := by
  rw [← List.forall₂_eq_eq_eq, List.forall₂_map_left_iff, List.forall₂_map_right_iff]
  exact h.imp hf

theorem Literal.pieces_of_numeral? {v : Literal} {text : String} (h : v.numeral? = some text) :
    v.pieces = [.plain text] := by
  cases v with
  | int i   => rw [← Option.some.inj h]; rfl
  | float x => rw [← Option.some.inj h]; rfl
  | _       => cases h

theorem Literal.Alike.pieces_eq {v v' : Literal} (h : v.Alike v') : v.pieces = v'.pieces := by
  rcases h with rfl | ⟨text, h, h'⟩
  · rfl
  · rw [pieces_of_numeral? h, pieces_of_numeral? h']

theorem Check.Alike.pieces_eq {c c' : Check} (h : c.Alike c') (name : String) :
    (c.toExpr name).pieces = (c'.toExpr name).pieces := by
  cases h with
  | compare op h        => simp only [Check.toExpr, Expr.pieces, h.pieces_eq]
  | isNull negated      => rfl
  | between negated h k => simp only [Check.toExpr, Expr.pieces, h.pieces_eq, k.pieces_eq]
  | member negated h hs =>
      have hmore := map_eq_map_of_forall₂ hs fun _ _ h => h.pieces_eq
      simp only [Check.toExpr, Expr.pieces, Expr.piecesOfEach_eq_map, List.map_cons, List.map_map,
        Function.comp_def, h.pieces_eq, hmore]

theorem Test.Alike.pieces_eq {t t' : Test} (h : t.Alike t') :
    t.toExpr.pieces = t'.toExpr.pieces := by
  cases h with
  | constant holds => rfl
  | column name h  => exact h.pieces_eq name

/-- **Queries that are alike** have the same pieces, clause by clause. So no style of writing can
tell them apart. -/
theorem Select.Alike.pieces_eq {q q' : Select} (h : q.Alike q') : q.pieces = q'.pieces := by
  obtain ⟨ts, ts', hts, hts', halike⟩ := h.condition
  rw [pieces, pieces, columnPieces, columnPieces, sourcePieces, sourcePieces,
    conditionPieces_eq hts, conditionPieces_eq hts', orderPieces_eq, orderPieces_eq, h.columns,
    h.source, h.orderBy, h.limit, map_eq_map_of_forall₂ halike fun _ _ h => h.pieces_eq]

end FacetQuery.Sql
