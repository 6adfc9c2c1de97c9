import FacetQuery.Proofs.Sql.Styles

/-!
# Sql — The tokens of a text

Pieces spell the same tokens in both styles, but that placeholders hide the strings.  So a text
tells its tokens, with placeholders together with the list of strings.

* `tokens ps`: what the pieces `ps` spell, strings as literals.
* `numbered i ts`: the tokens `ts` with placeholders for their literals; `numbered_inj`: with the
  literals beside them they tell `ts`, unless there is a `$` in the text.
* `Select.undollared_pieces`: there is none in the plain text of a query.
* `Select.tokens_eq_of_inline_eq`, `Select.tokens_eq_of_positional_eq`: queries with one text.
-/

namespace FacetQuery.Sql

/-! ### Tokens -/

/-- `spelled text` are the characters of a plain text. -/
def spelled (text : String) : List Lexeme := text.toList.map .outside

theorem spelled_append (s t : String) : spelled (s ++ t) = spelled s ++ spelled t := by
  rw [spelled, String.toList_append, List.map_append]
  rfl

/-- `tokens p` are the tokens of a piece. -/
def Piece.tokens : Piece → List Lexeme
  | plain text      => spelled text
  | identifier name => [.identifier name]
  | parameter value => [.literal value]

/-- `tokens ps` are the tokens of pieces. -/
def tokens (ps : List Piece) : List Lexeme := ps.flatMap Piece.tokens

@[simp] theorem tokens_nil : tokens [] = [] := rfl

@[simp] theorem tokens_cons (p : Piece) (ps : List Piece) :
    tokens (p :: ps) = p.tokens ++ tokens ps := rfl

@[simp] theorem tokens_append (ps qs : List Piece) : tokens (ps ++ qs) = tokens ps ++ tokens qs :=
  List.flatMap_append

/-- The literals among the tokens are the strings of the pieces, in their order: what the positional
style hands over as parameters. -/
theorem filterMap_literal?_tokens (ps : List Piece) :
    (tokens ps).filterMap Lexeme.literal? = ps.filterMap Piece.parameter? := by
  induction ps with
  | nil => rfl
  | cons p ps ih =>
      rw [tokens_cons, List.filterMap_append, ih]
      cases p with
      | plain text =>
          rw [Piece.tokens, spelled, Lexeme.filterMap_outside fun _ => rfl]
          rfl
      | identifier name => rfl
      | parameter value => rfl

/-! ### Placeholders -/

/-- `numbered i ts` writes placeholders for the literals of `ts`, numbered from `i` on. -/
def numbered : Nat → List Lexeme → List Lexeme
  | _, []               => []
  | i, .literal _ :: ts => spelled ("$" ++ naturalText i) ++ numbered (i + 1) ts
  | i, t :: ts          => t :: numbered i ts

/-- Plain text takes no number: it stays as it is, and the literals behind it are numbered as they
would be without it. -/
theorem numbered_spelled_append (i : Nat) (text : String) (ts : List Lexeme) :
    numbered i (spelled text ++ ts) = spelled text ++ numbered i ts := by
  rw [spelled]
  induction text.toList with
  | nil => rfl
  | cons c cs ih => exact congrArg (Lexeme.outside c :: ·) ih

/-- A literal is written as a dollar sign with its number, and the next one takes the number after
that. -/
theorem numbered_cons_literal (i : Nat) (value : String) (ts : List Lexeme) :
    numbered i (.literal value :: ts) =
      .outside '$' :: (spelled (naturalText i) ++ numbered (i + 1) ts) := by
  rw [numbered, spelled_append]
  rfl

theorem numbered_cons_of_literal?_eq_none {t : Lexeme} (ht : t.literal? = none) (i : Nat)
    (ts : List Lexeme) : numbered i (t :: ts) = t :: numbered i ts := by
  cases t with
  | literal value => cases ht
  | _             => rfl

theorem Lexeme.eq_of_literal?_eq_some {t : Lexeme} {value : String}
    (h : t.literal? = some value) : t = .literal value := by
  cases t with
  | literal value' => rw [Option.some.inj h]
  | _              => cases h

/-- Behind placeholders stand the literals beside them, and everything else is itself. Induction on
the tokens: a dollar sign tells a literal from plain text. -/
theorem numbered_inj {i : Nat} {ts ts' : List Lexeme} (hts : .outside '$' ∉ ts)
    (hts' : .outside '$' ∉ ts')
    (hliterals : ts.filterMap Lexeme.literal? = ts'.filterMap Lexeme.literal?)
    (h : numbered i ts = numbered i ts') : ts = ts' := by
  induction ts generalizing i ts' with
  | nil =>
      cases ts' with
      | nil         => rfl
      | cons t' ts' => cases t' <;> simp [numbered, spelled] at h
  | cons t ts ih =>
      obtain ⟨hne, hrest⟩ := List.ne_and_not_mem_of_not_mem_cons hts
      cases ts' with
      | nil => cases t <;> simp [numbered, spelled] at h
      | cons t' ts' =>
          obtain ⟨hne', hrest'⟩ := List.ne_and_not_mem_of_not_mem_cons hts'
          cases ht : t.literal? with
          | none =>
              -- Outside a literal the token itself is written, and it is no dollar sign.
              rw [numbered_cons_of_literal?_eq_none ht] at h
              cases ht' : t'.literal? with
              | none =>
                  rw [numbered_cons_of_literal?_eq_none ht'] at h
                  obtain ⟨hhead, htail⟩ := List.cons.inj h
                  rw [List.filterMap_cons_none ht, List.filterMap_cons_none ht'] at hliterals
                  rw [hhead, ih hrest hrest' hliterals htail]
              | some value' =>
                  rw [Lexeme.eq_of_literal?_eq_some ht', numbered_cons_literal] at h
                  exact absurd (List.cons.inj h).1.symm hne
          | some value =>
              rw [Lexeme.eq_of_literal?_eq_some ht, numbered_cons_literal] at h
              cases ht' : t'.literal? with
              | none =>
                  rw [numbered_cons_of_literal?_eq_none ht'] at h
                  exact absurd (List.cons.inj h).1 hne'
              | some value' =>
                  rw [Lexeme.eq_of_literal?_eq_some ht', numbered_cons_literal] at h
                  rw [List.filterMap_cons_some ht, List.filterMap_cons_some ht'] at hliterals
                  obtain ⟨hvalue, hliterals⟩ := List.cons.inj hliterals
                  -- Two literals with one number; which ones they are is told by the list.
                  have htail := List.append_cancel_left (List.cons.inj h).2
                  rw [Lexeme.eq_of_literal?_eq_some ht, Lexeme.eq_of_literal?_eq_some ht', hvalue,
                    ih hrest hrest' hliterals htail]

/-! ### Plain text without dollar signs -/

/-- `Undollared ps` says that there is no `$` in the plain text of `ps`. -/
def Undollared (ps : List Piece) : Prop := .outside '$' ∉ tokens ps

@[simp] theorem undollared_nil : Undollared [] := List.not_mem_nil

@[simp] theorem undollared_append {ps qs : List Piece} :
    Undollared (ps ++ qs) ↔ Undollared ps ∧ Undollared qs := by
  rw [Undollared, tokens_append, List.mem_append, not_or]
  rfl

@[simp] theorem undollared_plain_cons {text : String} {ps : List Piece} :
    Undollared (.plain text :: ps) ↔ '$' ∉ text.toList ∧ Undollared ps := by
  simp [Undollared, Piece.tokens, spelled]

@[simp] theorem undollared_identifier_cons {name : String} {ps : List Piece} :
    Undollared (.identifier name :: ps) ↔ Undollared ps := by
  simp [Undollared, Piece.tokens]

@[simp] theorem undollared_parameter_cons {value : String} {ps : List Piece} :
    Undollared (.parameter value :: ps) ↔ Undollared ps := by
  simp [Undollared, Piece.tokens]

theorem undollared_separated : ∀ {pss : List (List Piece)}, (∀ ps ∈ pss, Undollared ps) →
    Undollared (separated pss)
  | [],               _ => undollared_nil
  | [ps],             h => h ps List.mem_cons_self
  | ps :: ps' :: pss, h => by
      have rest := undollared_separated fun qs hqs => h qs (List.mem_cons_of_mem ps hqs)
      rw [separated_cons_cons]
      simp [h ps List.mem_cons_self, rest]

theorem dollar_notMem_of_isNumeral {cs : List Char} (h : ∀ c ∈ cs, isNumeral c = true) :
    '$' ∉ cs :=
  fun hc => absurd (h _ hc) (by decide)

/-- Whatever a value is written as: a string is no plain text, and `null`, truth values and numbers
have no dollar sign. -/
theorem Literal.undollared_pieces (v : Literal) : Undollared v.pieces := by
  cases v with
  | int i =>
      simpa [pieces] using dollar_notMem_of_isNumeral fun _ => isNumeral_of_mem_integerText
  | float x =>
      simpa [pieces, Layout.toList_text] using
        dollar_notMem_of_isNumeral fun _ => Layout.isNumeral_of_mem_chars
  | bool b   => cases b <;> simp [pieces]
  | string s => simp [pieces]
  | null     => simp [pieces]

theorem Comparison.dollar_notMem_text (op : Comparison) : '$' ∉ op.text.toList := by
  cases op <;> decide

namespace Expr

mutual

/-- **Plain text of a condition** has no dollar sign in it. Induction on the expression, together
with the list of its items. -/
theorem undollared_pieces : ∀ e : Expr, Undollared e.pieces
  | .column name                   => by simp [pieces]
  | .literal value                 => value.undollared_pieces
  | .and left right                => by
      simp [pieces, undollared_pieces left, undollared_pieces right]
  | .compare left op right         => by
      simp [pieces, op.dollar_notMem_text, undollared_pieces left, undollared_pieces right]
  | .member expr negated items     => by
      have list := undollared_separated (undollared_piecesOfEach items)
      cases negated <;> simp [pieces, undollared_pieces expr, list]
  | .isNull expr negated           => by
      cases negated <;> simp [pieces, undollared_pieces expr]
  | .between expr negated low high => by
      cases negated <;>
        simp [pieces, undollared_pieces expr, undollared_pieces low, undollared_pieces high]

theorem undollared_piecesOfEach : ∀ (es : List Expr), ∀ ps ∈ piecesOfEach es, Undollared ps
  | [],      _,  h => absurd h List.not_mem_nil
  | e :: es, ps, h => by
      rcases List.mem_cons.mp h with rfl | h
      · exact undollared_pieces e
      · exact undollared_piecesOfEach es ps h

end

end Expr

theorem Limit.undollared_pieces (l : Limit) : Undollared l.pieces := by
  have number (n : Nat) : '$' ∉ (naturalText n).toList :=
    toList_naturalText n ▸ dollar_notMem_of_isNumeral fun _ => isNumeral_of_mem_digits
  obtain ⟨limit, offset⟩ := l
  cases limit <;> cases offset <;> simp [pieces, number]

theorem Table.undollared_pieces (t : Table) : Undollared t.pieces := by
  obtain ⟨schema, name⟩ := t
  cases schema <;> simp [pieces]

/-- **Plain text of a query** has no dollar sign in it. Any dollar sign that a scan reads outside
quotes was therefore written for a placeholder. -/
theorem Select.undollared_pieces (q : Select) : Undollared q.pieces := by
  have columns : Undollared q.columnPieces := by
    rw [columnPieces]
    split
    · simp
    · refine undollared_separated fun ps hps => ?_
      obtain ⟨name, -, rfl⟩ := List.mem_map.mp hps
      simp
  have source : Undollared q.sourcePieces := by
    rw [sourcePieces]
    split
    · simp [Table.undollared_pieces]
    · simp
  have condition : Undollared q.conditionPieces := by
    rw [conditionPieces]
    split
    · simp
    · simp [Expr.undollared_pieces]
  have order : Undollared q.orderPieces := by
    rw [orderPieces]
    split
    · simp
    · have keys : Undollared (separated (q.orderBy.map SortKey.pieces)) := by
        refine undollared_separated fun ps hps => ?_
        obtain ⟨⟨target, direction⟩, -, rfl⟩ := List.mem_map.mp hps
        cases direction <;> simp [SortKey.pieces, Expr.undollared_pieces]
      simp [keys]
  simp [pieces, columns, source, condition, order, Limit.undollared_pieces]

/-! ### Texts -/

/-- Inline, a scan reads the tokens themselves, from whatever statement the pieces are written
behind. -/
theorem Statement.lexemes_inline {s : Statement} (hs : s.style = .inline) (ps : List Piece) :
    s.lexemes ps = tokens ps := by
  induction ps generalizing s with
  | nil => rfl
  | cons p ps ih =>
      rw [lexemes, ih ((style_push s p).trans hs), tokens_cons]
      cases p with
      | parameter value => rw [lexemesOf, hs]; rfl
      | _ => rfl

/-- With placeholders, a scan reads the tokens with the numbers that come after those of the
statement. -/
theorem Statement.lexemes_positional {s : Statement} (hs : s.style = .positional)
    (ps : List Piece) : s.lexemes ps = numbered (s.index + 1) (tokens ps) := by
  induction ps generalizing s with
  | nil => rfl
  | cons p ps ih =>
      rw [lexemes, ih ((style_push s p).trans hs), tokens_cons]
      cases p with
      | plain text      => exact (numbered_spelled_append _ text _).symm
      | identifier name => rfl
      | parameter value =>
          rw [lexemesOf, push, hs]
          rfl

namespace Select

variable {q q' : Select}

/-- **An inline text tells its tokens**: two queries that are rendered alike spell the same ones. -/
theorem tokens_eq_of_inline_eq (h : q.inline = q'.inline) :
    tokens q.pieces = tokens q'.pieces := by
  have hscan := scan_text_render .inline q
  have htext : (q.render .inline).text = (q'.render .inline).text := h
  rw [htext, scan_text_render, Statement.lexemes_inline rfl, Statement.lexemes_inline rfl] at hscan
  exact (Option.some.inj hscan).symm

/-- **A text with placeholders tells its tokens** together with the list of strings. Here the dollar
signs matter: `numbered_inj` asks for none in the plain text. -/
theorem tokens_eq_of_positional_eq (htext : q.positional.text = q'.positional.text)
    (hparams : q.positional.params = q'.positional.params) :
    tokens q.pieces = tokens q'.pieces := by
  have hscan := scan_text_render .positional q
  have htext : (q.render .positional).text = (q'.render .positional).text := htext
  rw [htext, scan_text_render, Statement.lexemes_positional rfl,
    Statement.lexemes_positional rfl] at hscan
  rw [positional_eq, positional_eq] at hparams
  refine numbered_inj q.undollared_pieces q'.undollared_pieces ?_ (Option.some.inj hscan).symm
  rw [filterMap_literal?_tokens, filterMap_literal?_tokens, parameters_pieces, parameters_pieces]
  exact hparams

end Select

end FacetQuery.Sql
