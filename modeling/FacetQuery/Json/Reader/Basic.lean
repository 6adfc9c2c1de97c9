import FacetQuery.Json.Reader.Fault

/-!
# Json — Reader — Cursors and steps

A reader walks a cursor over a text. It ends in one of three ways:

- `done`: it has read a value, and stands behind it;
- `broken`: something is wrong at a known place;
- `misfit`: what it read is not what was asked for, and the place to report is where the list or
  object around it ends (`enclosed`).

Places count lines from one, and within a line the bytes before the place.
-/

namespace FacetQuery.Json

/-- A place in a text. -/
structure Position where
  line : Nat
  /-- The bytes of the line before the place. -/
  column : Nat
deriving DecidableEq, Repr

namespace Position

/-- The start of a text. -/
def start : Position := ⟨1, 0⟩

/-- `past p c` is the place behind the character `c` at `p`. -/
def past (p : Position) (c : Char) : Position :=
  if c = '\n' then ⟨p.line + 1, 0⟩ else ⟨p.line, p.column + c.utf8Size⟩

/-- `pastByte p c` is the place behind the first byte of the character `c` at `p`. -/
def pastByte (p : Position) (c : Char) : Position :=
  if c = '\n' then ⟨p.line + 1, 0⟩ else ⟨p.line, p.column + 1⟩

/-- `pastAll p cs` is the place behind the characters `cs` at `p`. -/
def pastAll (p : Position) (cs : List Char) : Position :=
  cs.foldl past p

/-- `pastBytes? n p cs` is the place behind the first `n` bytes of `cs` at `p`, if there are as
many. -/
def pastBytes? : Nat → Position → List Char → Option Position
  | 0, p, _ => some p
  | _ + 1, _, [] => none
  | n + 1, p, c :: cs =>
      if c.utf8Size ≤ n + 1 then pastBytes? (n + 1 - c.utf8Size) (p.past c) cs
      else some ⟨p.line, p.column + (n + 1)⟩
termination_by _ _ cs => cs.length

end Position

/-- What is left of a text, and where it starts. -/
structure Cursor where
  rest : List Char
  position : Position
deriving DecidableEq, Repr

namespace Cursor

/-- `ofText s` stands at the start of `s`. -/
def ofText (s : String) : Cursor := ⟨s.toList, .start⟩

/-- `peekPosition c` is the place behind the next byte, or the end of the text. -/
def peekPosition (c : Cursor) : Position :=
  match c.rest with
  | [] => c.position
  | x :: _ => c.position.pastByte x

/-- `advance c` stands behind the next character. -/
def advance (c : Cursor) : Cursor :=
  match c.rest with
  | [] => c
  | x :: xs => ⟨xs, c.position.past x⟩

/-- `isBlank x` says that `x` may stand between tokens. -/
def isBlank (x : Char) : Bool :=
  x = ' ' || x = '\n' || x = '\t' || x = '\r'

/-- `pastBlanks c` stands at the next token. -/
def pastBlanks (c : Cursor) : Cursor :=
  ⟨c.rest.dropWhile isBlank, c.position.pastAll (c.rest.takeWhile isBlank)⟩

end Cursor

/-- How a reader ends. -/
inductive Step (α : Type) where
  /-- A value was read. -/
  | done (value : α) (next : Cursor)
  /-- Something is wrong at a known place. -/
  | broken (fault : Fault) (place : Position)
  /-- Something is wrong, and where the enclosing list or object ends is the place to say so. -/
  | misfit (fault : Fault) (next : Cursor)

/-- A reader of values of type `α`. -/
def Reader (α : Type) := Cursor → Step α

namespace Reader

variable {α β : Type}

instance : Monad Reader where
  pure a := fun c => .done a c
  bind r f := fun c =>
    match r c with
    | .done a next => f a next
    | .broken fault place => .broken fault place
    | .misfit fault next => .misfit fault next

theorem bind_done {r : Reader α} {f : α → Reader β} {c next : Cursor} {a : α}
    (h : r c = .done a next) : (r >>= f) c = f a next := by
  simp only [bind, h]

@[simp] theorem pure_apply (a : α) (c : Cursor) : (pure a : Reader α) c = .done a c := rfl

/-- `here fault` is wrong at the cursor. -/
def here (fault : Fault) : Reader α :=
  fun c => .broken fault c.position

/-- `back n fault` is wrong `n` bytes before the cursor, in the same line. -/
def back (n : Nat) (fault : Fault) : Reader α :=
  fun c => .broken fault ⟨c.position.line, c.position.column - n⟩

/-- `ahead fault` is wrong in the next byte. -/
def ahead (fault : Fault) : Reader α :=
  fun c => .broken fault c.peekPosition

/-- `unfit fault` is wrong as a part of what encloses it. -/
def unfit (fault : Fault) : Reader α :=
  fun c => .misfit fault c

/-- The next character, left where it is. -/
def peek : Reader (Option Char) :=
  fun c => .done c.rest.head? c

/-- The first character of the next token, left where it is. -/
def token : Reader (Option Char) :=
  fun c => .done c.pastBlanks.rest.head? c.pastBlanks

/-- Takes the next character. -/
def eat : Reader Unit :=
  fun c => .done () c.advance

/-- `takeWhile p` takes the characters as long as they satisfy `p`. -/
def takeWhile (p : Char → Bool) : Reader (List Char) :=
  fun c =>
    let taken := c.rest.takeWhile p
    .done taken ⟨c.rest.dropWhile p, c.position.pastAll taken⟩

/-- `word cs` takes exactly the characters `cs`. -/
def word : List Char → Reader Unit
  | [] => pure ()
  | x :: xs => do
      match ← peek with
      | none => here .endInValue
      | some y => if y = x then do eat; word xs else ahead .expectedWord

/-- `remaining` is the number of characters left, which bounds every loop of a reader. -/
def remaining : Reader Nat :=
  fun c => .done c.rest.length c

/-- `enclosed body close past` reads a body and then its closing bracket. A misfit in the body is
reported where `past` says that the bracket leaves off. -/
def enclosed (body : Reader α) (close : Reader Unit) (past : Cursor → Cursor) : Reader α :=
  fun c =>
    match body c with
    | .done a next =>
        match close next with
        | .done () next => .done a next
        | .broken fault place => .broken fault place
        | .misfit fault next => .misfit fault next
    | .broken fault place => .broken fault place
    | .misfit fault next => .broken fault (past next).position

end Reader

end FacetQuery.Json
