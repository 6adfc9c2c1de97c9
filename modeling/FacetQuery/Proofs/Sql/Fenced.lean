import FacetQuery.Proofs.Decimal.Layout
import FacetQuery.Proofs.Sql.Scan
import FacetQuery.Sql.Pieces

/-!
# Sql — Fenced pieces

In the text of a query no two quoted tokens touch: plain text stands between any two of them, so
that a scan reads every name and every string as one token.

* `Statement.lexemes`: what a scan reads of each piece of a statement.
* `Fenced`: pieces that are read so wherever a scan stands outside; `Fenced.join` puts fenced
  pieces together with plain text between them.
* `Expr.fenced_pieces`, `Select.fenced_pieces`: the pieces of every expression and every query.
-/

namespace FacetQuery.Sql

/-! ### Plain texts -/

theorem Quote.ofChar?_eq_none_of_isNumeral {c : Char} (h : isNumeral c = true) :
    ofChar? c = none := by
  have double : c ≠ '"' := by rintro rfl; exact absurd h (by decide)
  have single : c ≠ '\x27' := by rintro rfl; exact absurd h (by decide)
  simp [ofChar?, double, single]

theorem isPlain_naturalText (n : Nat) : IsPlain (naturalText n) := by
  rw [IsPlain, toList_naturalText]
  exact ⟨digits_ne_nil n, fun _ h => Quote.ofChar?_eq_none_of_isNumeral (isNumeral_of_mem_digits h)⟩

theorem isPlain_integerText (i : Int) : IsPlain (integerText i) :=
  ⟨integerText_toList_ne_nil i,
    fun _ h => Quote.ofChar?_eq_none_of_isNumeral (isNumeral_of_mem_integerText h)⟩

/-- The text of a double is plain too, with or without an exponent. -/
theorem Layout.isPlain_text (l : Layout) (x : Binary64) : IsPlain (l.text x) := by
  rw [IsPlain, Layout.toList_text]
  exact ⟨l.chars_ne_nil x,
    fun _ h => Quote.ofChar?_eq_none_of_isNumeral (Layout.isNumeral_of_mem_chars h)⟩

theorem Comparison.isPlain_text (op : Comparison) : IsPlain op.text := by
  cases op <;> decide

/-! ### Pieces -/

namespace Statement

/-- `placeholder s` is the text of the next placeholder. -/
def placeholder (s : Statement) : String := "$" ++ naturalText (s.index + 1)

/-- `lexemesOf s p` is what a scan reads of the piece `p` written behind `s`. -/
def lexemesOf (s : Statement) : Piece → List Lexeme
  | .plain text      => text.toList.map .outside
  | .identifier name => [.identifier name]
  | .parameter value =>
      match s.style with
      | .positional => s.placeholder.toList.map .outside
      | .inline     => [.literal value]

/-- `lexemes s ps` is what a scan reads of the pieces `ps` written behind `s`. -/
def lexemes (s : Statement) : List Piece → List Lexeme
  | []      => []
  | p :: ps => s.lexemesOf p ++ (s.push p).lexemes ps

/-- `scanned s` is the scan that has read the text of `s`. -/
def scanned (s : Statement) : Scan := Scan.start.run s.text.toList

/-- What is read of two runs of pieces is what is read of the first, then what is read of the second
behind it. -/
theorem lexemes_append (s : Statement) (ps qs : List Piece) :
    s.lexemes (ps ++ qs) = s.lexemes ps ++ (s.append ps).lexemes qs := by
  induction ps generalizing s with
  | nil => rfl
  | cons p ps ih =>
      rw [List.cons_append, lexemes, lexemes, ih, List.append_assoc]
      rfl

theorem isPlain_placeholder (s : Statement) : IsPlain s.placeholder := by
  have digits := (isPlain_naturalText (s.index + 1)).2
  refine ⟨by simp [placeholder], fun c h => ?_⟩
  rcases (by simpa [placeholder] using h : c = '$' ∨ c ∈ (naturalText (s.index + 1)).toList)
    with rfl | h
  · rfl
  · exact digits c h

/-- Where a text may end, a plain piece leads outside. -/
theorem scanned_push_plain {s : Statement} {ts : List Lexeme} {text : String}
    (hs : s.scanned.finish? = some ts) (h : IsPlain text) :
    (s.push (.plain text)).scanned = ⟨ts ++ text.toList.map .outside, .outside⟩ := by
  rw [scanned, push, String.toList_append, Scan.run_append]
  exact Scan.run_plain hs h

/-- Outside, a scan reads a quoted piece as one token. -/
theorem finish?_scanned_of_quoted {s s' : Statement} {ts : List Lexeme} (q : Quote)
    {content : String} (hs : s.scanned = ⟨ts, .outside⟩)
    (h : s'.text = s.text ++ quoted q.char content) :
    s'.scanned.finish? = some (ts ++ [q.lexeme content.toList]) := by
  rw [scanned, h, String.toList_append, Scan.run_append, ← scanned, hs, Scan.run_quoted]
  rfl

end Statement

/-! ### Fenced pieces -/

/-- `Fenced ps`: written where a scan stands outside, `ps` are read as their tokens, and the text
may end behind them. -/
def Fenced (ps : List Piece) : Prop :=
  ∀ (s : Statement) (ts : List Lexeme), s.scanned = ⟨ts, .outside⟩ →
    (s.append ps).scanned.finish? = some (ts ++ s.lexemes ps)

theorem fenced_nil : Fenced [] := by
  intro s ts hs
  rw [Statement.append_nil, hs, Statement.lexemes, List.append_nil]
  rfl

/-- A name is one token, if the scan is outside where it begins. -/
theorem fenced_identifier (name : String) : Fenced [.identifier name] := by
  intro s ts hs
  rw [Statement.finish?_scanned_of_quoted .double hs rfl]
  simp [Statement.lexemes, Statement.lexemesOf, Quote.lexeme]

theorem fenced_parameter (value : String) : Fenced [.parameter value] := by
  intro s ts hs
  obtain ⟨style, text, params, index⟩ := s
  -- A placeholder is plain text; a string in quotes is a token like any name.
  cases style with
  | positional =>
      have plain := Statement.isPlain_placeholder ⟨.positional, text, params, index⟩
      have outside := Statement.scanned_push_plain (by rw [hs]; rfl) plain
      simp only [Statement.scanned, Statement.append, Statement.push, Statement.placeholder,
        List.foldl_cons, List.foldl_nil, ← String.append_assoc] at outside ⊢
      rw [outside]
      simp [Scan.finish?, Statement.lexemes, Statement.lexemesOf, Statement.placeholder]
  | inline =>
      rw [Statement.finish?_scanned_of_quoted .single hs rfl]
      simp [Statement.lexemes, Statement.lexemesOf, Quote.lexeme]

namespace Fenced

/-- **Plain text is a fence.** Fenced pieces on both sides of it are fenced together: where the
first end, the text leads outside again. -/
theorem join {ps qs : List Piece} {text : String} (hp : Fenced ps) (h : IsPlain text)
    (hq : Fenced qs) : Fenced (ps ++ .plain text :: qs) := by
  intro s ts hs
  have outside := Statement.scanned_push_plain (hp s ts hs) h
  rw [Statement.append_append]
  -- Behind the fence the scan stands outside again, where `qs` may be written.
  have behind := hq _ _ outside
  rw [List.append_assoc, List.append_assoc] at behind
  rw [Statement.lexemes_append]
  exact behind

theorem cons {qs : List Piece} {text : String} (h : IsPlain text) (hq : Fenced qs) :
    Fenced (.plain text :: qs) :=
  fenced_nil.join h hq

theorem concat {ps : List Piece} {text : String} (hp : Fenced ps) (h : IsPlain text) :
    Fenced (ps ++ [.plain text]) :=
  hp.join h fenced_nil

theorem separated : ∀ {pss : List (List Piece)}, (∀ ps ∈ pss, Fenced ps) → Fenced (separated pss)
  | [],               _ => fenced_nil
  | [ps],             h => h ps List.mem_cons_self
  | ps :: ps' :: pss, h =>
      (h ps List.mem_cons_self).join (by decide)
        (separated fun qs hqs => h qs (List.mem_cons_of_mem ps hqs))

end Fenced

/-- `Clause ps`: `ps` is empty, or fenced pieces behind plain text. -/
def Clause (ps : List Piece) : Prop :=
  ps = [] ∨ ∃ text qs, ps = .plain text :: qs ∧ IsPlain text ∧ Fenced qs

/-- A clause is fenced off by the plain text it begins with, so nothing stands between it and what
is in front of it. -/
theorem Fenced.clause {ps qs : List Piece} (hp : Fenced ps) (hq : Clause qs) :
    Fenced (ps ++ qs) := by
  rcases hq with rfl | ⟨text, qs, rfl, h, hq⟩
  · rwa [List.append_nil]
  · exact hp.join h hq

/-- Clauses may stand one behind the other, and any of them may be left out. -/
theorem Clause.append {ps qs : List Piece} (hp : Clause ps) (hq : Clause qs) :
    Clause (ps ++ qs) := by
  rcases hp with rfl | ⟨text, ps, rfl, h, hp⟩
  · exact hq
  · exact .inr ⟨text, _, rfl, h, hp.clause hq⟩

/-! ### Expressions -/

theorem Literal.fenced_pieces (v : Literal) : Fenced v.pieces := by
  cases v with
  | int i    => exact fenced_nil.concat (isPlain_integerText i)
  | float x  => exact fenced_nil.concat (Layout.isPlain_text .plain x)
  | bool b   => cases b <;> exact fenced_nil.concat (by decide)
  | string s => exact fenced_parameter s
  | null     => exact fenced_nil.concat (by decide)

namespace Expr

mutual

/-- **The pieces of an expression** are fenced: operators, parentheses and commas are the fences.
Induction on the expression, together with the list of its items. -/
theorem fenced_pieces : ∀ e : Expr, Fenced e.pieces
  | .column name             => fenced_identifier name
  | .literal value           => value.fenced_pieces
  | .and left right          => left.fenced_pieces.join (by decide) right.fenced_pieces
  | .compare left op right   => left.fenced_pieces.join op.isPlain_text right.fenced_pieces
  | .member expr negated items => by
      refine expr.fenced_pieces.join (by cases negated <;> decide) (Fenced.cons (by decide) ?_)
      exact (Fenced.separated (fenced_piecesOfEach items)).concat (by decide)
  | .isNull expr negated     => expr.fenced_pieces.concat (by cases negated <;> decide)
  | .between expr negated low high => by
      refine expr.fenced_pieces.join (by cases negated <;> decide) ?_
      exact low.fenced_pieces.join (by decide) high.fenced_pieces

theorem fenced_piecesOfEach : ∀ (es : List Expr), ∀ ps ∈ piecesOfEach es, Fenced ps
  | [],      _,  h => absurd h List.not_mem_nil
  | e :: es, ps, h => by
      rcases List.mem_cons.mp h with rfl | h
      · exact e.fenced_pieces
      · exact fenced_piecesOfEach es ps h

end

end Expr

/-! ### Queries -/

theorem fenced_map_identifier (names : List String) :
    Fenced (separated (names.map fun name => [.identifier name])) := by
  refine Fenced.separated fun ps hps => ?_
  obtain ⟨name, -, rfl⟩ := List.mem_map.mp hps
  exact fenced_identifier name

theorem Table.fenced_pieces (t : Table) : Fenced t.pieces := by
  rw [Table.pieces]
  split
  · exact (fenced_identifier _).join (by decide) (fenced_identifier _)
  · exact fenced_identifier _

theorem SortKey.fenced_pieces (key : SortKey) : Fenced key.pieces :=
  key.target.fenced_pieces.concat (by cases key.direction <;> decide)

/-- `limit` and `offset` are plain text with a number in it. -/
theorem Limit.clause_pieces (l : Limit) : Clause l.pieces := by
  have clause {text : String} (h : IsPlain text) (n : UInt64) :
      Clause [.plain text, .plain (naturalText n.toNat)] :=
    .inr ⟨text, _, rfl, h, fenced_nil.concat (isPlain_naturalText _)⟩
  refine Clause.append ?_ ?_
  · split
    · exact clause (by decide) _
    · exact .inl rfl
  · split
    · exact clause (by decide) _
    · exact .inl rfl

namespace Select

theorem fenced_columnPieces (q : Select) : Fenced q.columnPieces := by
  rw [columnPieces]
  split
  · exact fenced_nil.concat (by decide)
  · exact fenced_map_identifier _

theorem clause_sourcePieces (q : Select) : Clause q.sourcePieces := by
  rw [sourcePieces]
  split
  · next table _ => exact .inr ⟨" ", _, rfl, by decide, table.fenced_pieces.cons (by decide)⟩
  · exact .inl rfl

theorem clause_conditionPieces (q : Select) : Clause q.conditionPieces := by
  rw [conditionPieces]
  split
  · exact .inl rfl
  · exact .inr ⟨" where ", _, rfl, by decide, q.condition.fenced_pieces⟩

theorem clause_orderPieces (q : Select) : Clause q.orderPieces := by
  rw [orderPieces]
  split
  · exact .inl rfl
  · refine .inr ⟨" order by ", _, rfl, by decide, Fenced.separated fun ps hps => ?_⟩
    obtain ⟨key, -, rfl⟩ := List.mem_map.mp hps
    exact key.fenced_pieces

/-- **The pieces of a query** are fenced: columns, then one clause behind the other. Each clause
begins with plain text, or is left out. -/
theorem fenced_pieces (q : Select) : Fenced q.pieces := by
  have clauses := (((q.fenced_columnPieces.clause q.clause_sourcePieces).clause
    q.clause_conditionPieces).clause q.clause_orderPieces).clause q.limit.clause_pieces
  exact clauses.cons (by decide)

end Select

end FacetQuery.Sql
