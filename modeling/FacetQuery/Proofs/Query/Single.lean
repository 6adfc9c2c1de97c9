import FacetQuery.Proofs.Facet.Filter
import FacetQuery.Proofs.Facet.Paging
import FacetQuery.Proofs.Facet.Sort
import FacetQuery.Proofs.Params.Typing
import FacetQuery.Proofs.Query.Plain

/-!
# Query — A filter by one value

The value of a filter is typed before anything is known of its operator.  So a value that looks like
something else than a string is none, even where a string is needed.

* `Filter.ofOne field op v`: a request with one filter and nothing else;
  `Filter.query_ofOne_eq_ok_iff`, `Filter.query_ofOne_eq_error`: what becomes of it.
* `Filter.Operand t text params`: what a query compares with, if the value has the text `t`.
* `Filter.Settles`: what becomes of a query string with one filter; `Filter.settles`: this holds of
  every field and every text.
-/

namespace FacetQuery

open Json Params Sql Text

theorem Request.query_eq_error_of_check {β : Type} {r : Request} {b : Backend β} {e : Refusal}
    (hon : Facet.filter.isEnabled r.schema = true)
    (hc : Facet.filter.check b.validator r = .error e) (start : β) :
    r.query b start = .error e := by
  rw [query, build, Facet.run_of_check_error hon hc]
  rfl

namespace Filter

/-! ### One filter -/

/-- `ofOne field op v` filters by `op` and `v` and leaves the rest to the standard schema. -/
def ofOne (field : String) (op : Operator) (v : Value) : Request where
  params := [(parameter, .object [(field, .object [(op.name, v)])])]
  schema := .standard

/-- `selectOne table e` is the first page of a table where `e` holds. -/
def selectOne (table : String) (e : Expr) : Select :=
  { Select.ofTable table with
    condition := e
    limit := ⟨some 20, some 0⟩ }

variable {field table : String} {op : Operator} {v : Value}

theorem requested_ofOne : requested (ofOne field op v) = .ok [⟨field, op, v⟩] := by
  have hparam : (ofOne field op v).param? parameter
      = some (.object [(field, .object [(op.name, v)])]) := rfl
  simp only [requested, hparam, ofValue]
  rw [predicates_eq_mapM]
  exact mapM_read_eq_ok_iff.mpr rfl

/-- The standard schema permits every field, so it is the value that decides. -/
theorem check_ofOne (w : Validator) :
    Facet.filter.check w (ofOne field op v) = w.check (.filter op) field v := by
  have hfields : checkFields (ofOne field op v).schema.filter.fields [⟨field, op, v⟩] = .ok () :=
    checkFields_eq_ok_iff.mpr fun p _ => Fields.allows_any p.field
  have hparam : ((ofOne field op v).param? parameter).isSome = true := rfl
  rw [Facet.check, validate, requested_ofOne]
  simp only [hparam, if_true, bind, Except.bind, hfields, List.forM]
  rcases w.check (.filter op) field v with e | ⟨⟩
  · rfl
  · rfl

theorem wellFormed_ofOne (hv : v.WellFormed) : (ofOne field op v).WellFormed where
  params := by simp [ofOne, Dictionary.keys, hv]
  defaultFilter := by simp [ofOne, Schema.standard, FilterSchema.standard, Dictionary.keys]

/-- Its filter succeeds if the value has the shape that the operator takes, and is then the
condition of the query. -/
theorem run_filter_ofOne_ok_iff (hv : v.WellFormed) {q q' : Select} :
    (Facet.filter.run .sql (ofOne field op v)).run q = (.ok (), q') ↔
      (ValueShape.ofOperation (.filter op)).admits v = true ∧
        ∃ e, Predicate.Asks ⟨field, op, v⟩ e ∧ q' = q.filter e := by
  have hon : Facet.filter.isEnabled (ofOne field op v).schema = true := rfl
  have hcheck : Facet.filter.check Validator.full (ofOne field op v) = .ok () ↔
      (ValueShape.ofOperation (.filter op)).admits v = true := by
    rw [check_ofOne, Validator.check_eq_ok_iff, and_iff_right (Validator.supports_full _)]
  have happly : (Facet.filter.apply .sql (Facet.filter.entries (ofOne field op v))).run q
      = (Backend.sql.filter ⟨field, op, v⟩).run q := by
    rw [Facet.apply, Facet.entries, apply_flat .sql (wellFormed_ofOne hv) requested_ofOne]
    exact congrArg (Build.run · q) bind_pure_unit
  rw [Facet.run_ok_iff, hon, happly, Backend.sql, Backend.run_filter_ok_iff]
  simp [hcheck, Backend.ofDialect, Validator.supports_full]

theorem run_sort_ofOne (q : Select) :
    (Facet.sort.run .sql (ofOne field op v)).run q = (.ok (), q) := rfl

theorem run_page_ofOne (q : Select) :
    (Facet.page.run .sql (ofOne field op v)).run q
      = (.ok (), q.limitedTo ⟨some 20, some 0⟩) := rfl

/-- A filter is turned into its condition if its value has the shape that the operator takes. Sort
and page are those of the standard schema. -/
theorem query_ofOne_eq_ok_iff (hv : v.WellFormed) {q : Select} :
    (ofOne field op v).query .sql (.ofTable table) = .ok q ↔
      (ValueShape.ofOperation (.filter op)).admits v = true ∧
        ∃ e, Predicate.Asks ⟨field, op, v⟩ e ∧ q = selectOne table e := by
  simp only [Request.query_ok_iff, run_filter_ofOne_ok_iff hv, run_sort_ofOne, run_page_ofOne,
    Prod.mk.injEq, true_and]
  constructor
  · rintro ⟨q₁, q₂, ⟨hadmits, e, he, rfl⟩, rfl, rfl⟩
    exact ⟨hadmits, e, he, rfl⟩
  · rintro ⟨hadmits, e, he, rfl⟩
    exact ⟨_, _, ⟨hadmits, e, he, rfl⟩, rfl, rfl⟩

/-- It is refused, by its field, if it has not. -/
theorem query_ofOne_eq_error
    (h : (ValueShape.ofOperation (.filter op)).admits v = false) (start : Select) :
    (ofOne field op v).query .sql start
      = .error (.invalid (.valueShape field (ValueShape.ofOperation (.filter op)))) := by
  refine Request.query_eq_error_of_check rfl ?_ start
  have hsupports : Validator.full.require (.filter op) = .ok () :=
    if_pos (Validator.supports_full _)
  rw [Backend.sql, Backend.ofDialect, check_ofOne, Validator.check, hsupports]
  simp [bind, Except.bind, h]

/-! ### One query string -/

/-- `outcome digit field op table t` is what becomes of a query string whose one pair filters by
`op` and the text `t`. -/
def outcome (digit : Nat → Char) (field : String) (op : Operator) (table : String)
    (t : List Char) : Except Refusal Select :=
  Request.query ⟨Params.read (String.ofList (encodedText digit field op t)), .standard⟩ .sql
    (.ofTable table)

variable {digit : Nat → Char} {t : List Char}

/-- **A query string with one pair** is the request with one filter by the value that its text
stands for. -/
theorem outcome_eq (hd : IsHexDigits digit) (hfield : field ≠ "") (hclose : ']' ∉ field.toList)
    (op : Operator) (table : String) (t : List Char) :
    outcome digit field op table t
      = (ofOne field op (scalar t)).query .sql (.ofTable table) := by
  have hname : op.name ≠ "" := by cases op <;> decide
  have hparams : Params.read (String.ofList (encodedText digit field op t))
      = (ofOne field op (scalar t)).params := by
    rw [read_eq_of_texts (texts_encodedText hd field op t)
      (by simp [read_encodedText hd, key_eq]), read_encodedText hd, Pair.assignTo,
      read_key hclose]
    simp [keyOf, assign, Dictionary.update, build, ofOne, hfield, hname]
  rw [outcome, hparams]
  rfl

/-- `Operand t text params` says how a query writes the value that `t` stands for, and which values
its placeholders have. -/
inductive Operand : List Char → String → List String → Prop where
  | yes : Operand "true".toList "true" []
  | no : Operand "false".toList "false" []
  /-- A whole number is written anew, without a plus sign or zeros in front. -/
  | whole {t : List Char} {i : Int} : SpellsInteger t i → fitsInt64 i = true →
      Operand t (integerText i) []
  /-- One that does not fit is taken as a decimal. -/
  | real {t : List Char} {l : Decimal.Literal} : (∀ i, SpellsInteger t i → fitsInt64 i = false) →
      Decimal.Literal.read? t = some l → l.toBinary64.isFinite = true →
      Operand t (Layout.plain.text l.toBinary64) []
  /-- What stays a string is a parameter as it is. -/
  | string {t : List Char} : t ∉ words → ¬ IsNumber t → Operand t "$1" [String.ofList t]

/-- `Writes l text params` says that the literal `l`, alone in a query, is written as `text`. -/
def Writes (l : Literal) (text : String) (params : List String) : Prop :=
  l.pieces = [.plain text] ∧ params = [] ∨
    ∃ s, l.pieces = [.parameter s] ∧ text = "$1" ∧ params = [s]

/-- A text that does not stand for null has a literal, and it is known how a query writes it: as
itself, or behind a placeholder. -/
theorem exists_operand (hnull : t ≠ "null".toList) :
    ∃ l text params, Literal.ofValue (scalar t) = .ok l ∧ Operand t text params ∧
      Writes l text params := by
  generalize hv : scalar t = v
  cases hv ▸ typed_scalar t with
  | null => exact absurd rfl hnull
  | yes => exact ⟨_, _, _, rfl, .yes, .inl ⟨rfl, rfl⟩⟩
  | no => exact ⟨_, _, _, rfl, .no, .inl ⟨rfl, rfl⟩⟩
  | @whole _ n hspells hfits =>
      have hint : Literal.ofNumber (.whole n) = .int n.val := by
        simp only [fitsInt64, Bool.and_eq_true, decide_eq_true_eq] at hfits
        exact if_pos hfits.2
      refine ⟨.int n.val, _, _, ?_, .whole hspells hfits, .inl ⟨rfl, rfl⟩⟩
      rw [Literal.ofValue, hint]
  | real hfinite hunfit hread =>
      exact ⟨_, _, _, rfl, .real hunfit hread hfinite, .inl ⟨rfl, rfl⟩⟩
  | string hwords hnumber =>
      exact ⟨_, _, _, rfl, .string hwords hnumber, .inr ⟨_, rfl, rfl, rfl⟩⟩

/-- `sentence table field op text` is a query with one comparison in it. -/
def sentence (table field : String) (op : Operator) (text : String) : String :=
  "select * from " ++ quoted '"' table ++ " where " ++ quoted '"' field ++ " " ++ op.name ++ " "
    ++ text ++ " limit 20 offset 0"

/-- The query is written piece by piece, with its literal as one of them. -/
theorem positional_selectOne_eq {c : Comparison} {l : Literal} {p : Piece} (h : l.pieces = [p]) :
    (selectOne table (.compare (.column field) c (.literal l))).positional
      = .ofPieces .positional
          [.plain "select ", .plain "*", .plain " ", .plain "from ", .identifier table,
            .plain " where ", .identifier field, .plain c.text, p, .plain " limit ", .plain "20",
            .plain " offset ", .plain "0"] := by
  have hwhere : (Expr.compare (.column field) c (.literal l)).pieces
      = [.identifier field, .plain c.text, p] := by
    rw [Expr.pieces, Expr.pieces, Expr.pieces, h]
    rfl
  have hlimit : Limit.pieces ⟨some 20, some 0⟩
      = [.plain " limit ", .plain "20", .plain " offset ", .plain "0"] := by decide
  refine congrArg (Statement.ofPieces .positional) ?_
  simp only [selectOne, Select.ofTable, Select.pieces, Select.columnPieces, Select.sourcePieces,
    Select.conditionPieces, Select.orderPieces, Table.pieces, Expr.isTrue, hwhere, hlimit]
  rfl

/-- The pieces of the query read as one sentence. -/
theorem append_eq_sentence (table field : String) (op : Operator) (text : String) :
    "" ++ "select " ++ "*" ++ " " ++ "from " ++ quoted '"' table ++ " where " ++ quoted '"' field
        ++ (" " ++ op.name ++ " ") ++ text ++ " limit " ++ "20" ++ " offset " ++ "0"
      = sentence table field op text := by
  have hhead : "select * from ".toList = "".toList ++ ("select ".toList ++ ("*".toList ++
      (" ".toList ++ "from ".toList))) := by decide
  have htail : " limit 20 offset 0".toList
      = " limit ".toList ++ ("20".toList ++ (" offset ".toList ++ "0".toList)) := by decide
  -- As lists of characters, for there is no looking into a literal for its parts.
  refine String.toList_injective ?_
  unfold sentence
  simp only [String.toList_append, List.append_assoc, hhead, htail]

/-- Its text is the sentence with that literal, and its parameters are those of the literal. -/
theorem positional_selectOne {c : Comparison} {l : Literal} {text : String} {params : List String}
    (h : Writes l text params) :
    (selectOne table (.compare (.column field) c (.literal l))).positional.text
        = sentence table field c.operator text ∧
      (selectOne table (.compare (.column field) c (.literal l))).positional.params = params := by
  rcases h with ⟨hl, rfl⟩ | ⟨s, hl, rfl, rfl⟩
  · rw [positional_selectOne_eq hl]
    simp only [Statement.ofPieces, Statement.append, List.foldl_cons, List.foldl_nil,
      Statement.push, Statement.empty, Comparison.text_eq]
    exact ⟨append_eq_sentence table field c.operator text, trivial⟩
  · have hmark (text : String) : text ++ "$" ++ naturalText (0 + 1) = text ++ "$1" :=
      String.append_assoc
    rw [positional_selectOne_eq hl]
    simp only [Statement.ofPieces, Statement.append, List.foldl_cons, List.foldl_nil,
      Statement.push, Statement.empty, Comparison.text_eq, hmark]
    exact ⟨append_eq_sentence table field c.operator "$1", List.nil_append _⟩

/-! ### What becomes of it -/

theorem ofOperation_of_pattern (h : op.cls = .pattern) :
    ValueShape.ofOperation (.filter op) = .string := by
  rw [ValueShape.ofOperation, h]

theorem ofOperation_of_equality (h : op.cls = .equality) :
    ValueShape.ofOperation (.filter op) = .scalar := by
  rw [ValueShape.ofOperation, h]

/-- What an operator of equality or of patterns asks for is a comparison. -/
theorem exists_comparison (h : op.cls = .pattern ∨ op.cls = .equality) :
    ∃ c : Comparison, c.operator = op := by
  rcases Predicate.operator_cases op with
    ⟨c, rfl⟩ | ⟨negated, rfl⟩ | ⟨negated, rfl⟩ | ⟨negated, rfl⟩
  · exact ⟨c, rfl⟩
  all_goals cases negated <;> exact absurd h (by decide)

/-- Every text stands for a value that has a literal, since it is a scalar. -/
theorem exists_literal (t : List Char) : ∃ l, Literal.ofValue (scalar t) = .ok l := by
  by_cases hnull : t = "null".toList
  · exact ⟨.null, by rw [hnull]; decide⟩
  · obtain ⟨l, -, -, hl, -⟩ := exists_operand hnull
    exact ⟨l, hl⟩

section Outcome

variable (hd : IsHexDigits digit) (hfield : field ≠ "") (hclose : ']' ∉ field.toList)

include hd hfield hclose

/-- There is a query if the value has its shape, and then it is the one with the comparison. -/
theorem outcome_eq_ok_iff {c : Comparison} {l : Literal} (hl : Literal.ofValue (scalar t) = .ok l)
    {q : Select} :
    outcome digit field c.operator table t = .ok q ↔
      (ValueShape.ofOperation (.filter c.operator)).admits (scalar t) = true ∧
        q = selectOne table (.compare (.column field) c (.literal l)) := by
  rw [outcome_eq hd hfield hclose, query_ofOne_eq_ok_iff (wellFormed_scalar t)]
  refine and_congr_right fun _ => ⟨?_, ?_⟩
  · rintro ⟨e, he, rfl⟩
    rw [he.unique (.compare c hl)]
  · rintro rfl
    exact ⟨_, .compare c hl, rfl⟩

/-- Whether there is a query depends on the shape of the value alone. -/
theorem exists_outcome_iff (hop : op.cls = .pattern ∨ op.cls = .equality) :
    (∃ q, outcome digit field op table t = .ok q) ↔
      (ValueShape.ofOperation (.filter op)).admits (scalar t) = true := by
  obtain ⟨c, rfl⟩ := exists_comparison hop
  obtain ⟨l, hl⟩ := exists_literal t
  simp only [outcome_eq_ok_iff hd hfield hclose hl]
  exact ⟨fun ⟨_, hadmits, _⟩ => hadmits, fun hadmits => ⟨_, hadmits, rfl⟩⟩

/-- In the query, the operand is written as the text is typed, and the comparison is the one with
the operator's name. -/
theorem exists_operand_of_outcome (hop : op.cls = .pattern ∨ op.cls = .equality) {q : Select}
    (h : outcome digit field op table t = .ok q) :
    ∃ c l text params, c.operator = op ∧
      q = selectOne table (.compare (.column field) c (.literal l)) ∧
        Operand t text params ∧ Writes l text params := by
  have hnull : t ≠ "null".toList := by
    rintro rfl
    have hadmits := (exists_outcome_iff hd hfield hclose hop).mp ⟨q, h⟩
    -- Neither of the two classes takes null.
    rcases hop with hop | hop
    · rw [ofOperation_of_pattern hop, string_admits_scalar_iff] at hadmits
      exact hadmits.1 List.mem_cons_self
    · rw [ofOperation_of_equality hop, scalar_admits_scalar_iff] at hadmits
      exact hadmits rfl
  obtain ⟨c, rfl⟩ := exists_comparison hop
  obtain ⟨l, text, params, hl, hoperand, hwrites⟩ := exists_operand hnull
  obtain ⟨-, rfl⟩ := (outcome_eq_ok_iff hd hfield hclose hl).mp h
  exact ⟨c, l, text, params, rfl, rfl, hoperand, hwrites⟩

end Outcome

/-- `Settles digit field table t` says what becomes of a query string that filters by the text `t`
and by an operator that takes strings, or scalars of any kind. -/
structure Settles (digit : Nat → Char) (field table : String) (t : List Char) : Prop where
  /-- Patterns are texts that stay strings. -/
  pattern : ∀ op : Operator, op.cls = .pattern →
    ((∃ q, outcome digit field op table t = .ok q) ↔ t ∉ words ∧ ¬ IsNumber t)
  /-- Other texts are refused, however well they would do as patterns. -/
  refused : ∀ op : Operator, op.cls = .pattern → t ∈ words ∨ IsNumber t →
    ∃ e, outcome digit field op table t = .error e ∧ e.message = field ++ " must be a string"
  /-- A field is compared by equality with anything but null. -/
  equality : ∀ op : Operator, op.cls = .equality →
    ((∃ q, outcome digit field op table t = .ok q) ↔ t ≠ "null".toList)
  /-- The query has this comparison as its condition, and writes its operand as the text is typed. -/
  query : ∀ (op : Operator) (q : Select), op.cls = .pattern ∨ op.cls = .equality →
    outcome digit field op table t = .ok q →
      (∃ c l, c.operator = op ∧ q = selectOne table (.compare (.column field) c (.literal l))) ∧
      ∃ text params, Operand t text params ∧
        q.positional.text = sentence table field op text ∧ q.positional.params = params

/-- **A filter by one value** is settled by the looks of the value, for operators of patterns and of
equality alike. -/
theorem settles (hd : IsHexDigits digit) (hfield : field ≠ "") (hclose : ']' ∉ field.toList)
    (table : String) (t : List Char) : Settles digit field table t where
  pattern op hop := by
    rw [exists_outcome_iff hd hfield hclose (.inl hop), ofOperation_of_pattern hop,
      string_admits_scalar_iff]
  refused op hop ht := by
    have hshape := ofOperation_of_pattern hop
    -- It is one of the words or a number, so it does not stay a string.
    have hadmits : ValueShape.string.admits (scalar t) = false := by
      rw [← Bool.not_eq_true, string_admits_scalar_iff, not_and_or, not_not, not_not]
      exact ht
    refine ⟨.invalid (.valueShape field .string), ?_, String.append_assoc⟩
    rw [outcome_eq hd hfield hclose, query_ofOne_eq_error (hshape ▸ hadmits), hshape]
  equality op hop := by
    rw [exists_outcome_iff hd hfield hclose (.inr hop), ofOperation_of_equality hop,
      scalar_admits_scalar_iff]
  query op q hop h := by
    obtain ⟨c, l, text, params, rfl, rfl, hoperand, hwrites⟩ :=
      exists_operand_of_outcome hd hfield hclose hop h
    exact ⟨⟨c, l, rfl, rfl⟩, text, params, hoperand, positional_selectOne hwrites⟩

/-- A plus sign and zeros in front make a number, which compares but is no pattern. -/
theorem settles_padded :
    IsHexDigits hexDigit ∧ "a:b" ≠ "" ∧ ']' ∉ "a:b".toList ∧
      (∃ q, outcome hexDigit "a:b" .notEqual "t" "+007".toList = .ok q) ∧
      ∃ e, outcome hexDigit "a:b" .ilike "t" "+007".toList = .error e ∧
        e.message = "a:b must be a string" := by
  have hfield : "a:b" ≠ "" := by decide
  have hclose : ']' ∉ "a:b".toList := by decide
  have hdigits : AreDigits "007".toList := ⟨by decide, List.all_eq_true.mp (by decide)⟩
  have hseven : IsNumber "+007".toList := .inl ⟨7, .plus hdigits, by decide⟩
  have hsettles := settles isHexDigits_hexDigit hfield hclose "t" "+007".toList
  exact ⟨isHexDigits_hexDigit, hfield, hclose, (hsettles.equality .notEqual rfl).mpr (by decide),
    hsettles.refused .ilike rfl (.inr hseven)⟩

example : (outcome hexDigit "a:b" .notEqual "t" "+007".toList).map (·.positional.text)
    = .ok "select * from \"t\" where \"a:b\" != 7 limit 20 offset 0" := by decide +kernel

end Filter

end FacetQuery
