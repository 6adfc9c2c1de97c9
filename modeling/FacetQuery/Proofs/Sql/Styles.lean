import FacetQuery.Proofs.Sql.Quoting

/-!
# Sql — Two styles, one statement

Whatever is written, both styles lay the same strings between the same texts: one as numbered
placeholders with the strings beside the text, the other in quotes.

* `Write`: one step of writing; `Select.render_eq_write`: a query is rendered by a single one.
* `gaps`: the texts around the parameters of some pieces; `gaps_relabel`: no parameter is in them.
* `Statement.append_positional`, `Statement.append_inline`: what pieces add to a statement.
* `Write.exists_woven`: any steps, in both styles.
-/

namespace FacetQuery.Sql

/-! ### Texts around parameters -/

/-- `woven first marks rest` is `first` with all marks behind it, each before its text in `rest`. -/
def woven (first : String) (marks rest : List String) : String :=
  first ++ String.join (List.zipWith (· ++ ·) marks rest)

/-- `placeholders i n` are `n` placeholders, numbered from `i` on. -/
def placeholders (i n : Nat) : List String :=
  (List.range' i n).map fun k => "$" ++ naturalText k

/-- `gaps ps` are the text before the first parameter of `ps`, and the texts behind each. -/
def gaps : List Piece → String × List String
  | []                     => ("", [])
  | .plain text :: ps      => (text ++ (gaps ps).1, (gaps ps).2)
  | .identifier name :: ps => (quoted '"' name ++ (gaps ps).1, (gaps ps).2)
  | .parameter _ :: ps     => ("", (gaps ps).1 :: (gaps ps).2)

theorem append_woven (text first : String) (marks rest : List String) :
    text ++ woven first marks rest = woven (text ++ first) marks rest :=
  String.append_assoc.symm

theorem woven_cons (first mark next : String) (marks rest : List String) :
    woven first (mark :: marks) (next :: rest) = first ++ mark ++ woven next marks rest := by
  simp [woven, String.join_cons, String.append_assoc]

theorem placeholders_succ (i n : Nat) :
    placeholders i (n + 1) = ("$" ++ naturalText i) :: placeholders (i + 1) n := rfl

theorem filterMap_parameter_cons (value : String) (ps : List Piece) :
    (.parameter value :: ps).filterMap Piece.parameter?
      = value :: ps.filterMap Piece.parameter? := rfl

theorem length_gaps (ps : List Piece) :
    (gaps ps).2.length = (ps.filterMap Piece.parameter?).length := by
  induction ps with
  | nil => rfl
  | cons p ps ih =>
      cases p with
      | parameter value => exact congrArg (· + 1) ih
      | _ => exact ih

/-- No parameter has a part in the texts around it. -/
theorem gaps_relabel (g : String → String) (ps : List Piece) :
    gaps (ps.map (Piece.relabel id g)) = gaps ps := by
  induction ps with
  | nil => rfl
  | cons p ps ih =>
      cases p <;> simp only [List.map_cons, Piece.relabel, gaps, ih, id]

namespace Statement

/-- With placeholders, pieces add their parameters beside the text and a number for each in it.
Induction on the pieces, from any statement. -/
theorem append_positional (text : String) (params : List String) (index : Nat) (ps : List Piece) :
    append ⟨.positional, text, params, index⟩ ps =
      { style := .positional
        text := text ++ woven (gaps ps).1
          (placeholders (index + 1) (ps.filterMap Piece.parameter?).length) (gaps ps).2
        params := params ++ ps.filterMap Piece.parameter?
        index := index + (ps.filterMap Piece.parameter?).length } := by
  induction ps generalizing text params index with
  | nil => simp [gaps, woven, String.join, placeholders]
  | cons p ps ih =>
      rw [append, List.foldl_cons, ← append]
      cases p with
      | plain t         => simp only [push, ih, gaps, ← append_woven, String.append_assoc]; rfl
      | identifier name => simp only [push, ih, gaps, ← append_woven, String.append_assoc]; rfl
      | parameter value =>
          -- The placeholder takes the next number, and those behind it go on from there.
          rw [push, ih, filterMap_parameter_cons, gaps, List.length_cons, placeholders_succ,
            woven_cons]
          simp [String.append_assoc, Nat.add_comm, Nat.add_left_comm]

/-- In quotes, pieces add nothing but text: each parameter as a literal in its place, between the
same texts. -/
theorem append_inline (text : String) (params : List String) (index : Nat) (ps : List Piece) :
    append ⟨.inline, text, params, index⟩ ps =
      { style := .inline
        text := text ++ woven (gaps ps).1
          ((ps.filterMap Piece.parameter?).map (quoted '\x27')) (gaps ps).2
        params, index } := by
  induction ps generalizing text with
  | nil => simp [gaps, woven, String.join]
  | cons p ps ih =>
      rw [append, List.foldl_cons, ← append]
      cases p with
      | plain t         => simp only [push, ih, gaps, ← append_woven, String.append_assoc]; rfl
      | identifier name => simp only [push, ih, gaps, ← append_woven, String.append_assoc]; rfl
      | parameter value =>
          rw [push, ih, filterMap_parameter_cons, gaps, List.map_cons, woven_cons]
          simp [String.append_assoc]

end Statement

/-! ### Steps of writing -/

/-- One step of writing a statement. -/
inductive Write where
  /-- Plain text, an identifier or a parameter. -/
  | piece (p : Piece)
  | expr (e : Expr)
  | query (q : Select)

namespace Write

/-- `pieces w` are the pieces that `w` writes. -/
def pieces : Write → List Piece
  | piece p => [p]
  | expr e  => e.pieces
  | query q => q.pieces

/-- `strings w` are the string values that `w` writes. -/
def strings : Write → List String
  | piece p => p.parameter?.toList
  | expr e  => e.strings
  | query q => q.strings

/-- `unfilled w` is `w` with its string values emptied. -/
def unfilled : Write → Write
  | piece p => piece (p.relabel id fun _ => "")
  | expr e  => expr (e.relabel id fun _ => "")
  | query q => query (q.relabel id fun _ => "")

/-- What a step writes has the strings of the step for its parameters. -/
theorem parameters_pieces (w : Write) : w.pieces.filterMap Piece.parameter? = w.strings := by
  cases w with
  | piece p => cases p <;> rfl
  | expr e  => exact Expr.agree_parameter?.filterMap_pieces e
  | query q => exact q.parameters_pieces

/-- A step without its strings writes the same pieces with empty parameters. -/
theorem pieces_unfilled (w : Write) :
    w.unfilled.pieces = w.pieces.map (Piece.relabel id fun _ => "") := by
  cases w with
  | piece p => rfl
  | expr e  => exact e.pieces_relabel id _
  | query q => exact q.pieces_relabel id _

end Write

/-- `write s ws` takes the steps `ws` one after another. -/
def Statement.write (s : Statement) (ws : List Write) : Statement :=
  ws.foldl (fun s w => s.append w.pieces) s

theorem Statement.write_eq_append (s : Statement) (ws : List Write) :
    s.write ws = s.append (ws.flatMap Write.pieces) := by
  induction ws generalizing s with
  | nil => rfl
  | cons w ws ih => rw [List.flatMap_cons, append_append, ← ih]; rfl

/-- A query is rendered by a single step. -/
theorem Select.render_eq_write (style : Style) (q : Select) :
    q.render style = (Statement.empty style).write [.query q] := rfl

namespace Write

/-- `Woven first rest ws` says that the steps `ws` lay their strings between the texts `first` and
`rest` in both styles: as placeholders with numbers from one on, beside the strings, or in single
quotes, with nothing beside the text. -/
structure Woven (first : String) (rest : List String) (ws : List Write) : Prop where
  length : rest.length = (ws.flatMap strings).length
  positional : (Statement.empty .positional).write ws =
    { style := .positional
      text := woven first (placeholders 1 (ws.flatMap strings).length) rest
      params := ws.flatMap strings
      index := (ws.flatMap strings).length }
  inline : (Statement.empty .inline).write ws =
    { style := .inline
      text := woven first ((ws.flatMap strings).map (quoted '\x27')) rest
      params := []
      index := 0 }

theorem parameters_flatMap_pieces (ws : List Write) :
    (ws.flatMap pieces).filterMap Piece.parameter? = ws.flatMap strings := by
  rw [List.filterMap_flatMap]
  exact congrArg (ws.flatMap ·) (funext parameters_pieces)

theorem flatMap_pieces_unfilled (ws : List Write) :
    (ws.map unfilled).flatMap pieces = (ws.flatMap pieces).map (Piece.relabel id fun _ => "") := by
  rw [List.flatMap_map, List.map_flatMap]
  exact congrArg (ws.flatMap ·) (funext pieces_unfilled)

/-- Steps that differ in the contents of their strings only have the same texts around them. -/
theorem gaps_eq_of_unfilled_eq {ws ws' : List Write} (h : ws'.map unfilled = ws.map unfilled) :
    gaps (ws'.flatMap pieces) = gaps (ws.flatMap pieces) := by
  rw [← gaps_relabel (fun _ => "") (ws'.flatMap pieces), ← flatMap_pieces_unfilled, h,
    flatMap_pieces_unfilled, gaps_relabel]

/-- The texts around the parameters are what both styles lay the strings between. -/
theorem woven_gaps (ws : List Write) :
    Woven (gaps (ws.flatMap pieces)).1 (gaps (ws.flatMap pieces)).2 ws where
  length := by rw [length_gaps, parameters_flatMap_pieces]
  positional := by
    rw [Statement.write_eq_append, Statement.empty, Statement.append_positional,
      parameters_flatMap_pieces]
    simp
  inline := by
    rw [Statement.write_eq_append, Statement.empty, Statement.append_inline,
      parameters_flatMap_pieces]
    simp

/-- **Both styles write one statement.**  Whatever steps are taken, there are texts between which
both styles lay the strings of the steps, in order; and they are the texts of all other steps too
that differ in nothing but the contents of strings. -/
theorem exists_woven (ws : List Write) :
    ∃ first rest, ∀ ws' : List Write, ws'.map unfilled = ws.map unfilled → Woven first rest ws' :=
  ⟨_, _, fun ws' h => gaps_eq_of_unfilled_eq h ▸ woven_gaps ws'⟩

end Write

/-! ### Queries -/

namespace Select

/-- A query with placeholders is its text between numbers, with its strings beside it. -/
theorem positional_eq (q : Select) :
    q.positional =
      { style := .positional
        text := woven (gaps q.pieces).1 (placeholders 1 q.strings.length) (gaps q.pieces).2
        params := q.strings
        index := q.strings.length } := by
  have h := (Write.woven_gaps [.query q]).positional
  rw [← render_eq_write, List.flatMap_singleton, List.flatMap_singleton] at h
  exact h

/-- Queries that differ in nothing but strings have one text with placeholders. -/
theorem text_positional_of_relabel_eq {g : String → String} {q q' : Select}
    (h : q'.relabel id g = q.relabel id g) :
    q'.positional.text = q.positional.text ∧
      q'.positional.params.length = q.positional.params.length := by
  have hgaps : gaps q'.pieces = gaps q.pieces := by
    rw [← gaps_relabel g q'.pieces, ← pieces_relabel, h, pieces_relabel, gaps_relabel]
  have hlength : q'.strings.length = q.strings.length := by
    rw [← parameters_pieces, ← parameters_pieces, ← length_gaps, ← length_gaps, hgaps]
  rw [positional_eq, positional_eq]
  exact ⟨by rw [hgaps, hlength], hlength⟩

end Select

end FacetQuery.Sql
