import FacetQuery.Json.Reader.Number
import FacetQuery.Json.Reader.Quoted
import FacetQuery.Json.Value

/-!
# Json — Reader — Lists, objects and values

Readers of lists and objects are given a reader of their items. The `levels` of a reader are the
lists and objects that may still be opened inside one another.

- `listOf` and `objectOf` read all items, or all members.
- `value` reads any value.
- `wrongKind` reports a value of another kind than was asked for.
-/

namespace FacetQuery.Json

namespace Cursor

/-- `pastListEnd c` stands behind the end of a list, or where something else than its end is. -/
def pastListEnd (c : Cursor) : Cursor :=
  let t := c.pastBlanks
  match t.rest with
  | ']' :: _ => t.advance
  | ',' :: _ => t.advance.pastBlanks
  | _ => t

/-- `pastObjectEnd c` stands behind the end of an object, or where something else than its end
is. -/
def pastObjectEnd (c : Cursor) : Cursor :=
  let t := c.pastBlanks
  match t.rest with
  | '\x7d' :: _ => t.advance
  | _ => t

end Cursor

namespace Reader

variable {α σ : Type}

/-! ### Brackets and separators -/

/-- The end of a list. -/
def closeList : Reader Unit := do
  match ← token with
  | none => here .endInList
  | some ']' => eat
  | some ',' => do
      eat
      match ← token with
      | some ']' => ahead .trailingComma
      | _ => ahead .trailingCharacters
  | some _ => ahead .trailingCharacters

/-- The end of an object. -/
def closeObject : Reader Unit := do
  match ← token with
  | none => here .endInObject
  | some '\x7d' => eat
  | some ',' => ahead .trailingComma
  | some _ => ahead .trailingCharacters

/-- `inList levels body` opens a list, reads `body` inside and closes the list. -/
def inList (levels : Nat) (body : Nat → Reader α) : Reader α :=
  match levels with
  | 0 => ahead .tooDeep
  | inner + 1 => do
      eat
      enclosed (body inner) closeList Cursor.pastListEnd

/-- `inObject levels body` opens an object, reads `body` inside and closes the object. -/
def inObject (levels : Nat) (body : Nat → Reader α) : Reader α :=
  match levels with
  | 0 => ahead .tooDeep
  | inner + 1 => do
      eat
      enclosed (body inner) closeObject Cursor.pastObjectEnd

/-- `hasItem first` says whether a list goes on, and stands at the item if it does. -/
def hasItem (first : Bool) : Reader Bool := do
  match ← token with
  | none => here .endInList
  | some ']' => pure false
  | some c =>
      if first then pure true
      else if c = ',' then do
        eat
        match ← token with
        | none => here .endInValue
        | some ']' => ahead .trailingComma
        | some _ => pure true
      else ahead .expectedListSeparator

/-- `hasMember first` says whether an object goes on, and stands at the key if it does. -/
def hasMember (first : Bool) : Reader Bool := do
  let next ← token
  match next with
  | none => here .endInObject
  | some '\x7d' => pure false
  | some c =>
      let next ←
        if first then pure next
        else if c = ',' then do eat; token
        else ahead .expectedObjectSeparator
      match next with
      | some '"' => pure true
      | some '\x7d' => ahead .trailingComma
      | some _ => ahead .keyNotString
      | none => here .endInValue

/-- The key of a member. -/
def key : Reader String := do
  eat
  quotedRest

/-- The colon behind a key. -/
def colon : Reader Unit := do
  match ← token with
  | none => here .endInObject
  | some ':' => eat
  | some _ => ahead .expectedColon

/-! ### Loops -/

/-- `items item first n` reads at most `n` items of a list. -/
def items (item : Reader α) : Bool → Nat → Reader (List α)
  | _, 0 => here .endInList
  | first, n + 1 => do
      if ← hasItem first then
        let a ← item
        return a :: (← items item false n)
      else pure []

/-- `members member s first n` reads at most `n` members of an object, each of which takes the
state on. -/
def members (member : String → σ → Reader σ) : σ → Bool → Nat → Reader σ
  | _, _, 0 => here .endInObject
  | s, first, n + 1 => do
      if ← hasMember first then
        let k ← key
        let s ← member k s
        members member s false n
      else pure s

/-- `listOf levels item` reads a list of items. -/
def listOf (levels : Nat) (item : Nat → Reader α) : Reader (List α) := do
  let n ← remaining
  inList levels fun inner => items (item inner) true n

/-- `objectOf levels member s` reads an object by what each member does to a state. -/
def objectOf (levels : Nat) (member : Nat → String → σ → Reader σ) (s : σ) : Reader σ := do
  let n ← remaining
  inObject levels fun inner => members (member inner) s true n

/-! ### Values -/

/-- `isNumberStart c` says that a number may start with `c`. -/
def isNumberStart (c : Char) : Bool := c = '-' || c.isDigit

/-- A value that is neither a list nor an object. -/
def scalar : Reader Value := do
  match ← token with
  | none => here .endInValue
  | some 'n' => do word ['n', 'u', 'l', 'l']; pure .null
  | some 't' => do word ['t', 'r', 'u', 'e']; pure (.bool true)
  | some 'f' => do word ['f', 'a', 'l', 's', 'e']; pure (.bool false)
  | some '"' => do eat; return .string (← quotedRest)
  | some c => if isNumberStart c then return .number (← number) else ahead .expectedValue

/-- `value levels` reads any value. -/
def value (levels : Nat) : Reader Value := do
  match ← token with
  | some '[' =>
      match levels with
      | 0 => ahead .tooDeep
      | inner + 1 => return .array (← listOf (inner + 1) fun _ => value inner)
  | some '\x7b' =>
      match levels with
      | 0 => ahead .tooDeep
      | inner + 1 =>
          return .object (← objectOf (inner + 1)
            (fun _ k d => do colon; return Dictionary.put k (← value inner) d) [])
  | _ => scalar

/-- `wrongKind expected` reports the next value as not being what was expected. Lists and objects
are reported where they start, other values where they end. -/
def wrongKind (expected : String) : Reader α := do
  match ← token with
  | some '[' => here (.wrongKind .list expected)
  | some '\x7b' => here (.wrongKind .map expected)
  | _ =>
      match ← scalar with
      | .null => here (.wrongKind .null expected)
      | .bool b => here (.wrongKind (.bool b) expected)
      | .number n => here (.wrongKind (.number n) expected)
      | .string s => here (.wrongKind (.string s) expected)
      | .array _ | .object _ => here .expectedValue

/-! ### Skipping -/

/-- `skip n` skips a value of any depth; opening a list and reading on inside it each take one off
the bound `n`. -/
def skip : Nat → Reader Unit
  | 0 => here .endInValue
  | n + 1 => do
      match ← token with
      | none => here .endInValue
      | some 'n' => word ['n', 'u', 'l', 'l']
      | some 't' => word ['t', 'r', 'u', 'e']
      | some 'f' => word ['f', 'a', 'l', 's', 'e']
      | some '"' => do eat; skipQuotedRest
      | some '[' => do eat; skipItems n true
      | some '\x7b' => do eat; skipMembers n true
      | some c => if isNumberStart c then skipNumber else ahead .expectedValue
where
  /-- `skipItems n first` skips the items of a list and its end. -/
  skipItems : Nat → Bool → Reader Unit
    | 0, _ => here .endInList
    | n + 1, first => do
        match ← token with
        | none => here .endInList
        | some ']' => eat
        | some c =>
            if first then skip n
            else if c = ',' then do eat; skip n
            else ahead .expectedListSeparator
            skipItems n false
  /-- `skipMembers n first` skips the members of an object and its end. -/
  skipMembers : Nat → Bool → Reader Unit
    | 0, _ => here .endInObject
    | n + 1, first => do
        match ← token with
        | none => here .endInObject
        | some '\x7d' => eat
        | some c =>
            if !first then
              if c = ',' then eat else ahead .expectedObjectSeparator
            match ← token with
            | none => here .endInObject
            | some '"' => do
                eat
                skipQuotedRest
                colon
                skip n
                skipMembers n false
            | some _ => ahead .keyNotString

/-- A value of any kind and depth, of which nothing is kept. -/
def skipValue : Reader Unit := do
  let n ← remaining
  skip (2 * n + 1)

end Reader

end FacetQuery.Json
