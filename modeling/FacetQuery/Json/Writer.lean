import FacetQuery.Json.Value
import FacetQuery.Text.Bytes

/-!
# Json — Writing

JSON text in two forms: compact, without any blank, and indented by two spaces per level with one
item or member a line. Empty arrays and objects stay on one line in both.
-/

namespace FacetQuery.Json

/-- `escape c` spells a character inside a quoted string. -/
def escape (c : Char) : List Char :=
  if c = '"' then ['\\', '"']
  else if c = '\\' then ['\\', '\\']
  else if c = '\x08' then ['\\', 'b']
  else if c = '\t' then ['\\', 't']
  else if c = '\n' then ['\\', 'n']
  else if c = '\x0c' then ['\\', 'f']
  else if c = '\r' then ['\\', 'r']
  else if c.toNat < 0x20 then
    ['\\', 'u', '0', '0', Text.hexDigit (c.toNat / 16), Text.hexDigit (c.toNat % 16)]
  else [c]

/-- `quote s` is `s` as a JSON string. -/
def quote (s : String) : String :=
  String.ofList ('"' :: (s.toList.flatMap escape ++ ['"']))

/-- What stands between the parts of an array or object: for each level of nesting, the text
before each part, before the closing bracket, and behind a key. -/
structure Spacing where
  /-- The text in front of a part at a level. -/
  lineAt : Nat → String
  /-- The text between a key and its value. -/
  colon : String

namespace Spacing

/-- No blanks at all. -/
def compact : Spacing := ⟨fun _ => "", ":"⟩

/-- A new line for every part, indented by two spaces for each level. -/
def indented : Spacing := ⟨fun level => String.ofList ('\n' :: List.replicate (2 * level) ' '), ": "⟩

end Spacing

namespace Value

/-- `bracket sp level l r parts` encloses the parts. -/
def bracket (sp : Spacing) (level : Nat) (left right : String) : List String → String
  | [] => left ++ right
  | parts =>
      left ++ String.intercalate "," (parts.map (sp.lineAt (level + 1) ++ ·)) ++ sp.lineAt level
        ++ right

mutual

/-- `write sp level v` is the text of `v` at a level of nesting. -/
def write (sp : Spacing) (level : Nat) : Value → String
  | .null => "null"
  | .bool true => "true"
  | .bool false => "false"
  | .number n => n.text
  | .string s => quote s
  | .array items => bracket sp level "[" "]" (writeItems sp (level + 1) items)
  | .object members => bracket sp level "\x7b" "\x7d" (writeMembers sp (level + 1) members)

/-- `writeItems sp level vs` are the texts of the items of an array. -/
def writeItems (sp : Spacing) (level : Nat) : List Value → List String
  | [] => []
  | v :: vs => write sp level v :: writeItems sp level vs

/-- `writeMembers sp level ms` are the texts of the members of an object. -/
def writeMembers (sp : Spacing) (level : Nat) : List (String × Value) → List String
  | [] => []
  | (k, v) :: ms => (quote k ++ sp.colon ++ write sp level v) :: writeMembers sp level ms

end

/-- `compact v` is the text of `v` without blanks. -/
def compact (v : Value) : String :=
  write .compact 0 v

/-- `indented v` is the text of `v` with a line for every item and member. -/
def indented (v : Value) : String :=
  write .indented 0 v

end Value

end FacetQuery.Json
