import FacetQuery.Proofs.Sql.Alike

/-!
# Sql — The text of a query is unambiguous

No parentheses, one word `and` for two purposes, names and strings of any content: all the same
there is a single way to read the text of a query that a backend has built.

* `Literal.legible`, `Test.legible`, `legible_key`, `legible_rows`: what the parts of such a query
  are read as, in front of whatever may follow them.
* `Outline.alike_of_tokens_eq`: outlines with the same tokens.
* `Built.alike_iff`: the texts of two queries are equal exactly if the queries are alike.
-/

namespace FacetQuery.Sql

/-! ### Values -/

namespace Literal

/-- `keyword? v` is the word for a value that is no number and no string. -/
def keyword? : Literal → Option String
  | .bool true  => some "true"
  | .bool false => some "false"
  | .null       => some "null"
  | _           => none

/-- `word? v` is the text of a value that is not quoted. -/
def word? (v : Literal) : Option String := v.numeral?.or v.keyword?

variable {v v' : Literal} {text : String}

theorem word?_eq_some (h : v.word? = some text) :
    v.numeral? = some text ∨ v.keyword? = some text :=
  (Option.or_eq_some_iff.mp h).imp_right And.right

theorem eq_string_of_word?_eq_none (h : v.word? = none) : ∃ s, v = .string s := by
  cases v with
  | string s => exact ⟨s, rfl⟩
  | bool b   => cases b <;> cases h
  | _        => cases h

theorem keyword?_cases (h : v.keyword? = some text) :
    v = .bool true ∧ text = "true" ∨ v = .bool false ∧ text = "false" ∨
      v = .null ∧ text = "null" := by
  cases v with
  | bool b => cases b <;> (cases h; simp)
  | null   => cases h; simp
  | _      => cases h

/-- The text of a number begins as numbers do, which is how it is told from a keyword. -/
theorem leadsNumber_of_numeral? (h : v.numeral? = some text) : LeadsNumber text.toList := by
  cases v with
  | int i =>
      obtain rfl := Option.some.inj h
      exact leadsNumber_integerText i
  | float x =>
      obtain rfl := Option.some.inj h
      rw [Layout.toList_text]
      exact Layout.leadsNumber_chars .plain x
  | _ => cases h

theorem not_leadsNumber_of_keyword? (h : v.keyword? = some text) : ¬ LeadsNumber text.toList := by
  rintro ⟨c, rest, htext, hc⟩
  rcases keyword?_cases h with ⟨-, rfl⟩ | ⟨-, rfl⟩ | ⟨-, rfl⟩ <;>
    (cases htext; revert hc; decide)

/-- Values with one word are alike. -/
theorem alike_of_word?_eq (h : v.word? = some text) (h' : v'.word? = some text) : v.Alike v' := by
  rcases word?_eq_some h with h | h <;> rcases word?_eq_some h' with h' | h'
  · exact .inr ⟨text, h, h'⟩
  · exact absurd (leadsNumber_of_numeral? h) (not_leadsNumber_of_keyword? h')
  · exact absurd (leadsNumber_of_numeral? h') (not_leadsNumber_of_keyword? h)
  · rcases keyword?_cases h with ⟨rfl, rfl⟩ | ⟨rfl, rfl⟩ | ⟨rfl, rfl⟩ <;>
      rcases keyword?_cases h' with ⟨rfl, hw⟩ | ⟨rfl, hw⟩ | ⟨rfl, hw⟩ <;>
      first | exact .inl rfl | exact absurd hw (by decide)

theorem pieces_of_word? (h : v.word? = some text) : v.pieces = [.plain text] := by
  rcases word?_eq_some h with h | h
  · exact pieces_of_numeral? h
  · rcases keyword?_cases h with ⟨rfl, rfl⟩ | ⟨rfl, rfl⟩ | ⟨rfl, rfl⟩ <;> rfl

/-- A word is not empty and consists of numerals, so where it ends is seen from the first character
that is none. -/
theorem isNumeral_of_word? (h : v.word? = some text) :
    text.toList ≠ [] ∧ ∀ c ∈ text.toList, isNumeral c = true := by
  rcases word?_eq_some h with h | h
  · cases v with
    | int i =>
        obtain rfl := Option.some.inj h
        exact ⟨integerText_toList_ne_nil i, fun _ => isNumeral_of_mem_integerText⟩
    | float x =>
        obtain rfl := Option.some.inj h
        rw [Layout.toList_text]
        exact ⟨Layout.chars_ne_nil _ x, fun _ => Layout.isNumeral_of_mem_chars⟩
    | _ => cases h
  · rcases keyword?_cases h with ⟨-, rfl⟩ | ⟨-, rfl⟩ | ⟨-, rfl⟩ <;>
      exact ⟨by decide, List.all_eq_true.mp (by decide)⟩

theorem tokens_pieces_of_word? (h : v.word? = some text) : tokens v.pieces = spelled text := by
  rw [pieces_of_word? h, tokens_cons, tokens_nil, List.append_nil, Piece.tokens]

/-- Quotes and words do not begin alike. -/
theorem literal_cons_ne_word {s : String} {ts ts' : List Lexeme} (h : v.word? = some text) :
    .literal s :: ts ≠ tokens v.pieces ++ ts' := by
  obtain ⟨c, cs, hcs⟩ := List.exists_cons_of_ne_nil (isNumeral_of_word? h).1
  rw [tokens_pieces_of_word? h, spelled, hcs]
  intro heq
  cases (List.cons.inj heq).1

/-- A value is read up to a character that is no numeral. -/
theorem legible {words : List String} (hwords : ∀ word ∈ words, Delimits word) :
    Legible Literal.pieces words Literal.Alike := by
  intro v v' ts ts' hts hts' h
  cases hv : v.word? with
  | none =>
      obtain ⟨s, rfl⟩ := eq_string_of_word?_eq_none hv
      cases hv' : v'.word? with
      | none =>
          obtain ⟨s', rfl⟩ := eq_string_of_word?_eq_none hv'
          cases h
          exact ⟨.inl rfl, rfl⟩
      | some text' => exact absurd h (literal_cons_ne_word hv')
  | some text =>
      cases hv' : v'.word? with
      | none =>
          obtain ⟨s', rfl⟩ := eq_string_of_word?_eq_none hv'
          exact absurd h.symm (literal_cons_ne_word hv)
      | some text' =>
          rw [tokens_pieces_of_word? hv, tokens_pieces_of_word? hv'] at h
          obtain ⟨htext, hrest⟩ := spelled_append_inj hwords (isNumeral_of_word? hv).2
            (isNumeral_of_word? hv').2 hts hts' h
          exact ⟨alike_of_word?_eq hv (htext ▸ hv'), hrest⟩

/-- The values of a list, up to the parenthesis that closes it. -/
theorem legible_list (words : List String) :
    Legible (fun x : Literal × List Literal =>
        (x.1.pieces ++ many ", " (x.2.map Literal.pieces)) ++ [.plain ")"])
      words fun x y => x.1.Alike y.1 ∧ List.Forall₂ Literal.Alike x.2 y.2 := by
  have item : Legible Literal.pieces [", ", ")"] Literal.Alike := legible (by decide)
  have items : Legible (fun vs => many ", " (vs.map Literal.pieces)) [")"]
      (List.Forall₂ Literal.Alike) :=
    item.many (by decide) (by decide) (by decide)
  exact (item.append items (leads_many (by decide) (by decide))).concat

/-- The bounds of a range: its `and` is the one behind the first value. -/
theorem legible_range {words : List String} (hwords : ∀ word ∈ words, Delimits word) :
    Legible (fun x : Literal × Literal => x.1.pieces ++ .plain " and " :: x.2.pieces) words
      fun x y => x.1.Alike y.1 ∧ x.2.Alike y.2 := by
  have low : Legible Literal.pieces [" and "] Literal.Alike := legible (by decide)
  exact low.append ((legible hwords).plain_cons " and ") (leads_plain_cons (by decide) _)

end Literal

/-! ### Tests -/

/-- `behindTest` is what stands behind a test, if it is not the end of the text. -/
def behindTest : List String := [" and ", " order by ", " limit "]

/-- How a check goes on behind the column. -/
inductive Head where
  | compare (op : Comparison)
  | isNull (negated : Bool)
  | member (negated : Bool)
  | between (negated : Bool)
deriving DecidableEq

namespace Head

/-- `text h` is what stands between the column and the first value. -/
def text : Head → String
  | compare op      => op.text
  | isNull negated  => if negated then " is not null" else " is null"
  | member negated  => (if negated then " not in " else " in ") ++ "("
  | between negated => if negated then " not between " else " between "

/-- Every head. -/
def all : List Head :=
  [.compare .equal, .compare .notEqual, .compare .lessOrGreater, .compare .greater,
    .compare .greaterOrEqual, .compare .less, .compare .lessOrEqual, .compare .like,
    .compare .notLike, .compare .ilike, .compare .notIlike, .isNull false, .isNull true,
    .member false, .member true, .between false, .between true]

theorem mem_all (h : Head) : h ∈ all := by
  cases h with
  | compare op => cases op <;> decide
  | _ negated  => cases negated <;> decide

/-- No head begins like another one. -/
theorem eq_of_spelled_append_eq {h h' : Head} {ts ts' : List Lexeme}
    (heq : spelled h.text ++ ts = spelled h'.text ++ ts') : h = h' := by
  have apart : ∀ h ∈ all, ∀ h' ∈ all, h = h' ∨ Apart h.text h'.text := by decide
  rcases apart h h.mem_all h' h'.mem_all with rfl | hapart
  · rfl
  · exact absurd heq (hapart.spelled_append_ne ts ts')

end Head

namespace Check

/-- `head c` is how `c` goes on behind the column. -/
def head : Check → Head
  | .compare op _        => .compare op
  | .isNull negated      => .isNull negated
  | .member negated _ _  => .member negated
  | .between negated _ _ => .between negated

/-- `body c` is what stands behind the head. -/
def body : Check → List Piece
  | .compare _ value      => value.pieces
  | .isNull _             => []
  | .member _ first more  =>
      (first.pieces ++ many ", " (more.map Literal.pieces)) ++ [.plain ")"]
  | .between _ low high   => low.pieces ++ .plain " and " :: high.pieces

/-- A check is written as the column, the head and the body. -/
theorem tokens_pieces (name : String) (c : Check) :
    tokens (c.toExpr name).pieces = .identifier name :: (spelled c.head.text ++ tokens c.body) := by
  cases c with
  | compare op value         => rfl
  | isNull negated           => cases negated <;> rfl
  | between negated low high => cases negated <;> rfl
  | member negated first more =>
      have hitems : separated (Expr.piecesOfEach ((first :: more).map .literal)) =
          first.pieces ++ many ", " (more.map Literal.pieces) := by
        rw [Expr.piecesOfEach_eq_map, List.map_map, List.map_cons, separated_cons]
        rfl
      rw [toExpr, Expr.pieces, hitems, head, Head.text, spelled_append, body, List.append_assoc,
        List.append_assoc]
      rfl

/-- Behind equal heads checks are read value by value. Values with one text may differ, which is
what makes the checks alike and not equal. -/
theorem alike_of_body_eq {c c' : Check} (hhead : c.head = c'.head) {ts ts' : List Lexeme}
    (hts : Ends behindTest ts) (hts' : Ends behindTest ts')
    (h : tokens c.body ++ ts = tokens c'.body ++ ts') : c.Alike c' ∧ ts = ts' := by
  cases c with
  | compare op value =>
      -- Equal heads belong to checks of one kind, so three of the four cases are void each time.
      cases c' with
      | compare op' value' =>
          cases hhead
          obtain ⟨hvalue, h⟩ := Literal.legible (by decide) hts hts' h
          exact ⟨.compare op hvalue, h⟩
      | _ => cases hhead
  | isNull negated =>
      cases c' with
      | isNull negated' =>
          cases hhead
          exact ⟨.isNull negated, h⟩
      | _ => cases hhead
  | member negated first more =>
      cases c' with
      | member negated' first' more' =>
          cases hhead
          have list := @Literal.legible_list behindTest (first, more) (first', more')
          obtain ⟨⟨hfirst, hmore⟩, h⟩ := list hts hts' h
          exact ⟨.member negated hfirst hmore, h⟩
      | _ => cases hhead
  | between negated low high =>
      cases c' with
      | between negated' low' high' =>
          cases hhead
          have range := @Literal.legible_range behindTest (by decide) (low, high) (low', high')
          obtain ⟨⟨hlow, hhigh⟩, h⟩ := range hts hts' h
          exact ⟨.between negated hlow hhigh, h⟩
      | _ => cases hhead

end Check

namespace Test

theorem tokens_constant (holds : Bool) :
    tokens (Expr.constant holds).pieces = spelled (if holds then "1 = 1" else "1 = 0") := by
  cases holds <;> decide

theorem constant_ne_column (holds : Bool) (name : String) (c : Check) (ts ts' : List Lexeme) :
    tokens (Expr.constant holds).pieces ++ ts ≠ tokens (c.toExpr name).pieces ++ ts' := by
  rw [tokens_constant, Check.tokens_pieces]
  intro h
  cases holds <;> cases (List.cons.inj h).1

/-- **A test can be read** in front of another test or of the next clause. Constants are told from
checks by their first token, and checks from each other by their heads. -/
theorem legible : Legible (fun t : Test => t.toExpr.pieces) behindTest Test.Alike := by
  intro t t' ts ts' hts hts' h
  cases t with
  | constant holds =>
      cases t' with
      | constant holds' =>
          -- The two constants differ in their last character, and neither begins with the other.
          have apart : Apart "1 = 1" "1 = 0" := by decide
          simp only [toExpr, tokens_constant] at h
          cases holds <;> cases holds'
          case false.false | true.true => exact ⟨.constant _, List.append_cancel_left h⟩
          case false.true              => exact absurd h.symm (apart.spelled_append_ne _ _)
          case true.false              => exact absurd h (apart.spelled_append_ne _ _)
      | column name' c' => exact (constant_ne_column _ _ _ _ _ h).elim
  | column name c =>
      cases t' with
      | constant holds' => exact (constant_ne_column _ _ _ _ _ h.symm).elim
      | column name' c' =>
          simp only [toExpr, Check.tokens_pieces, List.cons_append, List.append_assoc] at h
          obtain ⟨hname, hrest⟩ := List.cons.inj h
          -- Behind the name stands the head, and what comes next depends on it.
          have hhead := Head.eq_of_spelled_append_eq hrest
          rw [hhead] at hrest
          obtain ⟨hc, hend⟩ := Check.alike_of_body_eq hhead hts hts' (List.append_cancel_left hrest)
          exact ⟨Lexeme.identifier.inj hname ▸ .column name hc, hend⟩

end Test

/-! ### Keys and rows -/

/-- `keyPieces f` spells `f` as a key of an ordering. -/
def keyPieces (f : SortField) : List Piece :=
  SortKey.pieces ⟨.column f.field, f.order⟩

theorem tokens_keyPieces (f : SortField) : tokens (keyPieces f) =
    .identifier f.field :: spelled (match f.order with | .asc => " asc" | .desc => " desc") := by
  obtain ⟨field, order⟩ := f
  cases order <;> simp [keyPieces, SortKey.pieces, Expr.pieces, Piece.tokens]

/-- A key can be read in front of anything: a name, then one of two words of which neither begins
with the other. -/
theorem legible_key (words : List String) : Legible keyPieces words Eq := by
  intro f f' ts ts' _ _ h
  have apart : Apart " asc" " desc" := by decide
  obtain ⟨field, order⟩ := f
  obtain ⟨field', order'⟩ := f'
  rw [tokens_keyPieces, tokens_keyPieces] at h
  obtain ⟨hfield, h⟩ := List.cons.inj h
  obtain rfl : field = field' := Lexeme.identifier.inj hfield
  cases order <;> cases order'
  case asc.asc | desc.desc => exact ⟨rfl, List.append_cancel_left h⟩
  case asc.desc            => exact absurd h (apart.spelled_append_ne _ _)
  case desc.asc            => exact absurd h.symm (apart.spelled_append_ne _ _)

/-- `rowPieces rows` spells how many rows, and how many to skip first. -/
def rowPieces (rows : Option (UInt64 × UInt64)) : List Piece :=
  Limit.pieces ⟨rows.map Prod.fst, rows.map Prod.snd⟩

theorem tokens_rowPieces_some_append (limit offset : UInt64) (ts : List Lexeme) :
    tokens (rowPieces (some (limit, offset))) ++ ts =
      spelled " limit " ++ (tokens ([.plain (naturalText limit.toNat)] ++
        .plain " offset " :: [.plain (naturalText offset.toNat)]) ++ ts) := rfl

theorem leads_rows : Leads rowPieces [] [" limit "] := by
  intro rows ts hts
  cases rows with
  | none   => exact hts.mono (List.nil_subset _)
  | some x => exact tokens_rowPieces_some_append x.1 x.2 ts ▸ ends_spelled List.mem_cons_self _

/-- The limits can be read at the end of a query: whether there are any, and both numbers. -/
theorem legible_rows : Legible rowPieces [] Eq := by
  intro rows rows' ts ts' hts hts' h
  have mark : Marks " limit " [] := by decide
  cases rows with
  | none =>
      cases rows' with
      | none   => exact ⟨rfl, h⟩
      | some x =>
          exact absurd (h.trans (tokens_rowPieces_some_append ..)) (mark.ne_spelled_append hts _)
  | some x =>
      have h := (tokens_rowPieces_some_append ..).symm.trans h
      cases rows' with
      | none    => exact absurd h.symm (mark.ne_spelled_append hts' _)
      | some x' =>
          have h := List.append_cancel_left (h.trans (tokens_rowPieces_some_append ..))
          have limit := @legible_natural [" offset "] (by decide)
          have offset := (@legible_natural [] (by decide)).plain_cons " offset "
          have both := limit.append offset (leads_plain_cons (by decide) _)
          obtain ⟨⟨hlimit, hoffset⟩, h⟩ := @both x x' _ _ hts hts' h
          exact ⟨congrArg some (Prod.ext hlimit hoffset), h⟩

/-! ### Queries -/

namespace Outline

/-- `clausePieces x` spells tests, keys and rows as clauses. -/
def clausePieces (x : List Test × List SortField × Option (UInt64 × UInt64)) : List Piece :=
  chain " where " " and " (x.1.map fun t => t.toExpr.pieces) ++
    (chain " order by " ", " (x.2.1.map keyPieces) ++ rowPieces x.2.2)

/-- A query from an outline is written as a fixed beginning, the table and the clauses. -/
theorem pieces_select (o : Outline) :
    o.select.pieces = .plain "select " :: .plain "*" :: .plain " " :: .plain "from " ::
      .identifier o.table :: clausePieces (o.tests, o.keys, o.rows) := by
  have keys : o.select.orderBy.map SortKey.pieces = o.keys.map keyPieces := List.map_map
  rw [Select.pieces, Select.conditionPieces_eq rfl, Select.orderPieces_eq, keys, clausePieces]
  simp [select, Select.columnPieces, Select.sourcePieces, Table.pieces, rowPieces]

/-- **The clauses can be read** at the end of a text, each in front of those that may follow it. -/
theorem legible_clausePieces : Legible clausePieces [] fun x y =>
    List.Forall₂ Test.Alike x.1 y.1 ∧ List.Forall₂ Eq x.2.1 y.2.1 ∧ x.2.2 = y.2.2 := by
  have tests : Legible (fun ts => chain " where " " and " (ts.map fun t => t.toExpr.pieces))
      [" order by ", " limit "] (List.Forall₂ Test.Alike) :=
    Test.legible.chain (by decide) (by decide) (by decide) (by decide)
  have keys : Legible (fun fs => chain " order by " ", " (fs.map keyPieces)) [" limit "]
      (List.Forall₂ Eq) :=
    (legible_key [", ", " limit "]).chain (by decide) (by decide) (by decide) (by decide)
  exact tests.append (keys.append legible_rows leads_rows)
    (leads_rows.append (leads_chain (by decide) (by decide)))

/-- Queries with the same tokens are alike: the beginning tells the table, and the clauses behind it
are legible. -/
theorem alike_of_tokens_eq {o o' : Outline}
    (h : tokens o.select.pieces = tokens o'.select.pieces) : o.select.Alike o'.select := by
  rw [pieces_select, pieces_select] at h
  simp only [tokens_cons, List.append_cancel_left_eq, Piece.tokens, List.singleton_append,
    List.cons.injEq, Lexeme.identifier.injEq] at h
  obtain ⟨htable, h⟩ := h
  -- Nothing stands behind the clauses.
  obtain ⟨⟨htests, hkeys, hrows⟩, -⟩ :=
    legible_clausePieces (ends_nil []) (ends_nil []) (congrArg (· ++ []) h)
  have hrows : o.rows = o'.rows := hrows
  rw [List.forall₂_eq_eq_eq] at hkeys
  exact
    { columns   := rfl
      source    := by rw [select, select, htable]
      condition := ⟨o.tests, o'.tests, rfl, rfl, htests⟩
      orderBy   := congrArg (List.map _) hkeys
      limit     := by rw [select, select, hrows] }

end Outline

/-- **The text of a query is unambiguous.**  Two queries that backends have built have one text,
with their strings in quotes or beside it, exactly if they are alike: they differ in nothing but
numbers with one text. -/
theorem Built.alike_iff {table table' : String} {q q' : Select} (h : Built table q)
    (h' : Built table' q') :
    (q.inline = q'.inline ↔ q.Alike q') ∧
      (q.positional.text = q'.positional.text ∧ q.positional.params = q'.positional.params ↔
        q.Alike q') := by
  obtain ⟨o, -, rfl⟩ := h.exists_outline
  obtain ⟨o', -, rfl⟩ := h'.exists_outline
  refine ⟨⟨fun heq => ?_, fun halike => ?_⟩, ⟨fun ⟨htext, hparams⟩ => ?_, fun halike => ?_⟩⟩
  · exact Outline.alike_of_tokens_eq (Select.tokens_eq_of_inline_eq heq)
  · rw [Select.inline, Select.inline, Select.render, Select.render, halike.pieces_eq]
  · exact Outline.alike_of_tokens_eq (Select.tokens_eq_of_positional_eq htext hparams)
  · rw [Select.positional, Select.positional, Select.render, Select.render, halike.pieces_eq]
    exact ⟨rfl, rfl⟩

/-- A range with `and` in its name and in one of its bounds, and a number, in front of a page. -/
def ranged (n : Literal) : Outline where
  table := "t"
  tests :=
    [.column "a\" and b" (.between true (.string "x' and y") (.int 2)),
      .column "c" (.compare .less n)]
  keys := [⟨"a", .desc⟩]
  rows := some (20, 40)

/-- The query is one that a backend builds: one call for the range and one for the page. -/
theorem built_ranged {v : Json.Value} {n : Literal} (h : Literal.ofValue v = .ok n) :
    Built "t" (ranged n).select := by
  have base : Built "t" (.ofTable "t") := .start
  have range : Predicate.Asks
      ⟨"a\" and b", .notBetween, .array [.string "x' and y", .ofUInt64 2]⟩ _ :=
    .between true rfl rfl
  have number : Predicate.Asks ⟨"c", .less, v⟩ _ := .compare .less h
  have first := base.call .full (.filter _)
    (Backend.run_filter_ok_iff.mpr ⟨Validator.supports_full _, _, range, rfl⟩)
  have second := first.call .full (.filter _)
    (Backend.run_filter_ok_iff.mpr ⟨Validator.supports_full _, _, number, rfl⟩)
  have third := second.call .full (.sort ⟨"a", .desc⟩)
    (Backend.run_sort_ok_iff.mpr ⟨Validator.supports_full _, rfl⟩)
  exact third.call .full (.page ⟨20, 3, 40⟩)
    (Backend.run_page_ok_iff.mpr ⟨Validator.supports_full _, rfl⟩)

/-- The double `1`. -/
def one : Binary64 := ⟨0x3FF0000000000000⟩

/-- An integer and a double with one text make two queries with one text, which are alike. The
bounds and the name have `and` in them, and are read all the same. -/
theorem alike_iff_ranged :
    Built "t" (ranged (.int 1)).select ∧ Built "t" (ranged (.float one)).select ∧
      (ranged (.int 1)).select.inline = (ranged (.float one)).select.inline ∧
      (ranged (.int 1)).select.Alike (ranged (.float one)).select := by
  have whole : Built "t" (ranged (.int 1)).select :=
    @built_ranged (.ofUInt64 1) _ rfl
  have double : Built "t" (ranged (.float one)).select :=
    @built_ranged (.number (.real one rfl)) _ rfl
  have text : (ranged (.int 1)).select.inline = (ranged (.float one)).select.inline := by
    decide +kernel
  exact ⟨whole, double, text, (Built.alike_iff whole double).1.mp text⟩

end FacetQuery.Sql
