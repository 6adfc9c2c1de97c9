import FacetQuery.Json.Reader.Value

/-!
# Json — Reader — Values of a given type

Readers of booleans, counts, strings, lists, names and records.

- A record is written as an object, or as the list of its fields in their order.
- In an object the fields come in any order and at most once; unknown keys are skipped.
- In a list the last fields may be missing.
-/

namespace FacetQuery.Json.Reader

variable {α σ : Type}

/-- A boolean. -/
def boolean : Reader Bool := do
  match ← token with
  | some 't' => do word ['t', 'r', 'u', 'e']; pure true
  | some 'f' => do word ['f', 'a', 'l', 's', 'e']; pure false
  | _ => wrongKind "a boolean"

/-- A whole number from zero to `2^64 - 1`. -/
def count : Reader UInt64 := do
  match ← token with
  | some c =>
      if isNumberStart c then
        let n ← number
        match n with
        | .whole i =>
            match i.toUInt64? with
            | some m => pure m
            | none => here (.wrongValue (.number n) "u64")
        | .real _ _ => here (.wrongKind (.number n) "u64")
      else wrongKind "u64"
  | none => wrongKind "u64"

/-- A whole number from one to `2^64 - 1`. -/
def positive : Reader UInt64 := do
  let n ← count
  if n = 0 then unfit (.wrongValue (.number (.ofUInt64 n)) "a positive integer") else pure n

/-- `string expected` is a string; `expected` is what to call it where something else stands. -/
def string (expected : String) : Reader String := do
  match ← token with
  | some '"' => do eat; quotedRest
  | _ => wrongKind expected

/-- `list levels item` is a list. -/
def list (levels : Nat) (item : Nat → Reader α) : Reader (List α) := do
  match ← token with
  | some '[' => listOf levels item
  | _ => wrongKind "a sequence"

/-- `map levels` is an object with any members. -/
def map (levels : Nat) : Reader (Dictionary Value) := do
  match ← token with
  | some '\x7b' =>
      objectOf levels (fun inner k d => do colon; return Dictionary.put k (← value inner) d) []
  | _ => wrongKind "a map"

/-- `variant ofName? expected name` is what the name stands for. -/
def variant (ofName? : String → Option α) (expected name : String) : Reader α :=
  match ofName? name with
  | some a => pure a
  | none => here (.unknownVariant name expected)

/-- The key that an object must begin with. -/
def firstKey : Reader String := do
  match ← token with
  | some '"' => key
  | some '\x7d' => ahead .expectedValue
  | some _ => ahead .keyNotString
  | none => here .endInObject

/-- `choice levels ofName? expected` is one of several names: a string, or an object with the name
as its only key and `null` under it. -/
def choice (levels : Nat) (ofName? : String → Option α) (expected : String) : Reader α := do
  match ← token with
  | some '"' => do variant ofName? expected (← key)
  | some '\x7b' =>
      match levels with
      | 0 => ahead .tooDeep
      | _ + 1 => do
          eat
          let a ← variant ofName? expected (← firstKey)
          colon
          match ← token with
          | some 'n' => word ['n', 'u', 'l', 'l']
          | _ => wrongKind "unit"
          match ← token with
          | some '\x7d' => do eat; pure a
          | some _ => here .expectedValue
          | none => here .endInObject
  | some _ => ahead .expectedValue
  | none => here .endInValue

/-! ### Records -/

/-- A field of a record under construction. -/
structure Slot (σ : Type) where
  name : String
  /-- Whether the field has been read. -/
  isSet : σ → Bool
  /-- Reads the field; the number is that of the levels left. -/
  read : Nat → σ → Reader σ

/-- `member slots levels k s` reads the member under the key `k`. -/
def member (slots : List (Slot σ)) (levels : Nat) (k : String) (s : σ) : Reader σ :=
  match slots.find? (·.name = k) with
  | some slot =>
      if slot.isSet s then unfit (.duplicateField k)
      else do colon; slot.read levels s
  | none => do colon; skipValue; pure s

/-- `inOrder slots levels s first` reads fields one after another until the list ends. -/
def inOrder (levels : Nat) : List (Slot σ) → σ → Bool → Reader σ
  | [], s, _ => pure s
  | slot :: slots, s, first => do
      if ← hasItem first then
        let s ← slot.read levels s
        inOrder levels slots s false
      else pure s

/-- `record expected levels slots s ofObject ofList` reads a record from the state `s` on; what an
object or a list leaves is completed by `ofObject` or `ofList`. -/
def record (expected : String) (levels : Nat) (slots : List (Slot σ)) (s : σ)
    (ofObject ofList : σ → Reader α) : Reader α := do
  let n ← remaining
  match ← token with
  | some '[' =>
      inList levels fun inner => do ofList (← inOrder inner slots s true)
  | some '\x7b' =>
      inObject levels fun inner => do ofObject (← members (member slots inner) s true n)
  | _ => wrongKind expected

/-! ### Whole texts -/

/-- What is wrong with a text, and where. -/
structure ReadError where
  fault : Fault
  place : Position
deriving DecidableEq

namespace ReadError

/-- `message e` says what is wrong and where. -/
def message (e : ReadError) : String :=
  e.fault.message ++ " at line " ++ naturalText e.place.line ++ " column "
    ++ naturalText e.place.column

end ReadError

/-- The end of the text. -/
def atEnd : Reader Unit := do
  match ← token with
  | none => pure ()
  | some _ => ahead .trailingCharacters

/-- `run r text` reads all of a text. -/
def run (r : Reader α) (text : String) : Except ReadError α :=
  match (do let a ← r; atEnd; pure a : Reader α) (.ofText text) with
  | .done a _ => .ok a
  | .broken fault place => .error ⟨fault, place⟩
  | .misfit fault next => .error ⟨fault, next.position⟩

end FacetQuery.Json.Reader
