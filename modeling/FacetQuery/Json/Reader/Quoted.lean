import FacetQuery.Json.Reader.Basic
import FacetQuery.Text.Bytes

/-!
# Json — Reader — Quoted strings

Strings behind their opening quote. `\u` escapes beyond the basic plane come as a surrogate pair;
a string that is only skipped may hold half a pair.
-/

namespace FacetQuery.Json.Reader

/-- `hexValue? cs` is the number that hexadecimal digits spell. -/
def hexValue? (cs : List Char) : Option Nat :=
  cs.foldl (fun n c => do return 16 * (← n) + (← Text.hexDigit? c)) (some 0)

/-- Four hexadecimal digits. -/
def hex4 : Reader Nat :=
  fun c =>
    match Position.pastBytes? 4 c.position c.rest with
    | none => .broken .endInString (c.position.pastAll c.rest)
    | some place =>
        match hexValue? (c.rest.take 4) with
        | some n => .done n ⟨c.rest.drop 4, place⟩
        | none => .broken .invalidEscape place

/-- `isLeading n` says that `n` is the first half of a surrogate pair. -/
def isLeading (n : Nat) : Bool := 0xD800 ≤ n && n ≤ 0xDBFF

/-- `isTrailing n` says that `n` is the second half of a surrogate pair. -/
def isTrailing (n : Nat) : Bool := 0xDC00 ≤ n && n ≤ 0xDFFF

/-- `pairValue a b` is the code point of the surrogate pair `a`, `b`. -/
def pairValue (a b : Nat) : Nat :=
  0x10000 + (a - 0xD800) * 0x400 + (b - 0xDC00)

/-- `expectInPair x` takes the character `x` that a surrogate pair goes on with. -/
def expectInPair (x : Char) : Reader Unit := do
  match ← peek with
  | none => here .endInString
  | some y => if y = x then eat else ahead .brokenSurrogatePair

/-- What stands behind `\u`: a character, or a surrogate pair. -/
def unicodeEscape : Reader Char := do
  let n ← hex4
  if isTrailing n then here .loneSurrogate
  else if isLeading n then do
    expectInPair '\\'
    expectInPair 'u'
    let m ← hex4
    if isTrailing m then pure (Char.ofNat (pairValue n m)) else here .loneSurrogate
  else pure (Char.ofNat n)

/-- `simpleEscape? c` is the character that `c` stands for behind a backslash. -/
def simpleEscape? : Char → Option Char
  | '"' => some '"'
  | '\\' => some '\\'
  | '/' => some '/'
  | 'b' => some '\x08'
  | 'f' => some '\x0c'
  | 'n' => some '\n'
  | 'r' => some '\r'
  | 't' => some '\t'
  | _ => none

/-- `escaped unicode` is what stands behind a backslash; `unicode` reads on behind a `u`. -/
def escaped (unicode : Reader Char) : Reader Char := do
  match ← peek with
  | none => here .endInString
  | some 'u' => do eat; unicode
  | some c =>
      match simpleEscape? c with
      | some x => do eat; pure x
      | none => ahead .invalidEscape

/-- `character control unicode` is the next character of a string, or `none` for its closing
quote; `control` reports a control character. -/
def character (control : Reader (Option Char)) (unicode : Reader Char) :
    Reader (Option Char) := do
  match ← peek with
  | none => here .endInString
  | some c =>
      if c = '"' then do eat; pure none
      else if c = '\\' then do eat; return some (← escaped unicode)
      else if c.toNat < 0x20 then control
      else do eat; pure (some c)

/-- `characters one n` reads at most `n` characters up to the closing quote. -/
def characters (one : Reader (Option Char)) : Nat → Reader (List Char)
  | 0 => here .endInString
  | n + 1 => do
      match ← one with
      | none => pure []
      | some c => return c :: (← characters one n)

/-- A string behind its opening quote. -/
def quotedRest : Reader String := do
  let n ← remaining
  return String.ofList (← characters (character (ahead .controlCharacter) unicodeEscape) (n + 1))

/-- A string behind its opening quote, of which nothing is kept. -/
def skipQuotedRest : Reader Unit := do
  let n ← remaining
  let unicode := do let _ ← hex4; pure ' '
  let _ ← characters (character (here .controlCharacter) unicode) (n + 1)

end FacetQuery.Json.Reader
