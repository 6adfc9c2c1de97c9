import FacetQuery.Sql.Statement

/-!
# Sql — Scanning a text

A scan reads SQL text from left to right.  A double quote opens an identifier, a single quote a
string literal; within a quoted token two of its quotes stand for one, and one alone ends it.

* `Lexeme`: what a scan reads, a quoted token or a character outside of them.
* `scan text`: everything it reads, `none` if the text ends within a quoted token.
* `Scan.run_plain`, `Scan.run_quoted`: how a scan passes plain text and a quoted token.
-/

namespace FacetQuery.Sql

/-- The two kinds of quotes. -/
inductive Quote where
  | double
  | single
deriving DecidableEq, Repr

/-- What a scan reads. -/
inductive Lexeme where
  /-- A character outside the quoted tokens. -/
  | outside (c : Char)
  /-- A token in double quotes. -/
  | identifier (name : String)
  /-- A token in single quotes. -/
  | literal (value : String)
deriving DecidableEq, Repr

namespace Quote

/-- `char q` is the quote itself. -/
def char : Quote → Char
  | double => '"'
  | single => '\x27'

/-- `ofChar? c` is the kind of quote `c` is, if it is one. -/
def ofChar? (c : Char) : Option Quote :=
  if c = '"' then some double else if c = '\x27' then some single else none

/-- `lexeme q content` is the token with this content between quotes `q`. -/
def lexeme (content : List Char) : Quote → Lexeme
  | double => .identifier (String.ofList content)
  | single => .literal (String.ofList content)

@[simp] theorem ofChar?_char (q : Quote) : ofChar? q.char = some q := by
  cases q <;> rfl

end Quote

namespace Lexeme

/-- `identifier? t` is the name that `t` quotes. -/
def identifier? : Lexeme → Option String
  | .identifier name => some name
  | _                => none

/-- `literal? t` is the string that `t` quotes. -/
def literal? : Lexeme → Option String
  | .literal value => some value
  | _              => none

/-- `blank t` is `t` with what it quotes emptied; a character outside stays. -/
def blank : Lexeme → Lexeme
  | .outside c    => .outside c
  | .identifier _ => .identifier ""
  | .literal _    => .literal ""

end Lexeme

/-- Where a scan stands. -/
inductive Mode where
  | outside
  /-- In a quoted token, behind `content`. -/
  | inside (q : Quote) (content : List Char)
  /-- Behind a quote that ends the token, unless another one follows. -/
  | ending (q : Quote) (content : List Char)
deriving DecidableEq, Repr

/-- A scan on its way. -/
structure Scan where
  read : List Lexeme
  mode : Mode
deriving DecidableEq, Repr

namespace Scan

/-- `start` has read nothing. -/
def start : Scan := ⟨[], .outside⟩

/-- `stepOutside ts c` reads `c` outside the quoted tokens, behind `ts`. -/
def stepOutside (ts : List Lexeme) (c : Char) : Scan :=
  match Quote.ofChar? c with
  | some q => ⟨ts, .inside q []⟩
  | none   => ⟨ts ++ [.outside c], .outside⟩

/-- `step s c` reads `c`. -/
def step (s : Scan) (c : Char) : Scan :=
  match s.mode with
  | .outside          => stepOutside s.read c
  | .inside q content =>
      if c = q.char then ⟨s.read, .ending q content⟩ else ⟨s.read, .inside q (content ++ [c])⟩
  | .ending q content =>
      if c = q.char then ⟨s.read, .inside q (content ++ [c])⟩
      else stepOutside (s.read ++ [q.lexeme content]) c

/-- `run s cs` reads all of `cs`. -/
def run (s : Scan) (cs : List Char) : Scan := cs.foldl step s

/-- `finish? s` is what `s` has read, unless it stands in a quoted token. -/
def finish? (s : Scan) : Option (List Lexeme) :=
  match s.mode with
  | .outside          => some s.read
  | .inside _ _       => none
  | .ending q content => some (s.read ++ [q.lexeme content])

@[simp] theorem run_nil (s : Scan) : s.run [] = s := rfl

@[simp] theorem run_cons (s : Scan) (c : Char) (cs : List Char) :
    s.run (c :: cs) = (s.step c).run cs := rfl

theorem run_append (s : Scan) (cs ds : List Char) : s.run (cs ++ ds) = (s.run cs).run ds :=
  List.foldl_append

end Scan

/-- `scan text` is everything a scan of `text` reads, `none` if it ends in a quoted token. -/
def scan (text : String) : Option (List Lexeme) := (Scan.start.run text.toList).finish?

/-! ### Plain text -/

/-- `IsPlain text`: `text` is not empty and has no quotes. -/
def IsPlain (text : String) : Prop :=
  text.toList ≠ [] ∧ ∀ c ∈ text.toList, Quote.ofChar? c = none

instance (text : String) : Decidable (IsPlain text) :=
  @instDecidableAnd _ _ inferInstance (List.decidableBAll _ text.toList)

namespace Scan

/-- Outside, every character that opens nothing is read as itself. -/
theorem run_outside {cs : List Char} (h : ∀ c ∈ cs, Quote.ofChar? c = none)
    (ts : List Lexeme) : run ⟨ts, .outside⟩ cs = ⟨ts ++ cs.map .outside, .outside⟩ := by
  induction cs generalizing ts with
  | nil => simp
  | cons c cs ih =>
      have hc : Quote.ofChar? c = none := h c List.mem_cons_self
      have hcs : ∀ c ∈ cs, Quote.ofChar? c = none := fun d hd => h d (List.mem_cons_of_mem c hd)
      simp [step, stepOutside, hc, ih hcs]

/-- **Plain text ends a token.** Where a text may end, plain text leads outside. A quote that has
just closed is not doubled by it, since it has none. -/
theorem run_plain {s : Scan} {ts : List Lexeme} {text : String} (hs : s.finish? = some ts)
    (h : IsPlain text) :
    s.run text.toList = ⟨ts ++ text.toList.map .outside, .outside⟩ := by
  obtain ⟨hne, hq⟩ := h
  obtain ⟨read, mode⟩ := s
  cases mode with
  | outside =>
      obtain rfl : read = ts := Option.some.inj hs
      exact run_outside hq read
  | inside q content => exact absurd hs (by simp [finish?])
  | ending q content =>
      obtain rfl : read ++ [q.lexeme content] = ts := Option.some.inj hs
      -- The first character is no quote: it closes the token and stands outside.
      obtain ⟨c, cs, hcs⟩ := List.exists_cons_of_ne_nil hne
      rw [hcs] at hq ⊢
      have hc : Quote.ofChar? c = none := hq c List.mem_cons_self
      have hcq : c ≠ q.char := by
        rintro rfl
        exact absurd hc (by simp)
      have hstep : step ⟨read, .ending q content⟩ c
          = step ⟨read ++ [q.lexeme content], .outside⟩ c := by
        simp [step, hcq]
      rw [run_cons, hstep, ← run_cons]
      exact run_outside hq _

/-! ### Quoted text -/

/-- Within quotes, a text whose quotes are doubled is read as what it was before. Induction on the
text: a doubled quote takes two steps and adds one. -/
theorem run_doubled (ts : List Lexeme) (q : Quote) (content cs : List Char) :
    run ⟨ts, .inside q content⟩ (doubled q.char cs) = ⟨ts, .inside q (content ++ cs)⟩ := by
  induction cs generalizing content with
  | nil => simp [doubled]
  | cons c cs ih =>
      unfold doubled
      split
      · next h =>
          subst h
          simp [step, ih]
      · next h => simp [step, h, ih]

/-- **A quoted text is one token.** Outside, a scan passes it and holds its content unchanged,
whatever quotes are in it. -/
theorem run_quoted (ts : List Lexeme) (q : Quote) (s : String) :
    run ⟨ts, .outside⟩ (quoted q.char s).toList = ⟨ts, .ending q s.toList⟩ := by
  have opened : step ⟨ts, .outside⟩ q.char = ⟨ts, .inside q []⟩ := by
    simp [step, stepOutside]
  have closed : step ⟨ts, .inside q s.toList⟩ q.char = ⟨ts, .ending q s.toList⟩ := by
    simp [step]
  rw [quoted, String.toList_ofList, run_cons, opened, run_append, run_doubled, List.nil_append,
    run_cons, closed, run_nil]

example : scan "\"a\"\"b\"='it''s'"
    = some [.identifier "a\"b", .outside '=', .literal "it's"] := by decide

end Scan

end FacetQuery.Sql
