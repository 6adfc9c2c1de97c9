import FacetQuery.Dictionary
import FacetQuery.Json.Number

/-!
# Json — Values

JSON values whose objects keep the order of their members. Equality is decidable, and the views
`asString?`, `asArray?`, `asObject?` and `asUInt64?` say which values are of which kind.
-/

namespace FacetQuery.Json

/-- A JSON value. -/
inductive Value where
  | null
  | bool (b : Bool)
  | number (n : Number)
  | string (s : String)
  | array (items : List Value)
  | object (members : List (String × Value))

namespace Value

/-! ### Decidable equality -/

mutual

/-- `decEq v w` decides `v = w`. -/
def decEq : (v w : Value) → Decidable (v = w)
  | .null, .null => isTrue rfl
  | .bool a, .bool b => if h : a = b then isTrue (h ▸ rfl) else isFalse (by simpa using h)
  | .number a, .number b => if h : a = b then isTrue (h ▸ rfl) else isFalse (by simpa using h)
  | .string a, .string b => if h : a = b then isTrue (h ▸ rfl) else isFalse (by simpa using h)
  | .array a, .array b =>
      match decEqItems a b with
      | isTrue h => isTrue (h ▸ rfl)
      | isFalse h => isFalse (by simpa using h)
  | .object a, .object b =>
      match decEqMembers a b with
      | isTrue h => isTrue (h ▸ rfl)
      | isFalse h => isFalse (by simpa using h)
  | .null, .bool _ | .null, .number _ | .null, .string _ | .null, .array _ | .null, .object _
  | .bool _, .null | .bool _, .number _ | .bool _, .string _ | .bool _, .array _
  | .bool _, .object _
  | .number _, .null | .number _, .bool _ | .number _, .string _ | .number _, .array _
  | .number _, .object _
  | .string _, .null | .string _, .bool _ | .string _, .number _ | .string _, .array _
  | .string _, .object _
  | .array _, .null | .array _, .bool _ | .array _, .number _ | .array _, .string _
  | .array _, .object _
  | .object _, .null | .object _, .bool _ | .object _, .number _ | .object _, .string _
  | .object _, .array _ => isFalse (by simp)

/-- `decEqItems vs ws` decides `vs = ws`. -/
def decEqItems : (vs ws : List Value) → Decidable (vs = ws)
  | [], [] => isTrue rfl
  | v :: vs, w :: ws =>
      match decEq v w, decEqItems vs ws with
      | isTrue h, isTrue hs => isTrue (h ▸ hs ▸ rfl)
      | isFalse h, _ => isFalse (by simp [h])
      | _, isFalse hs => isFalse (by simp [hs])
  | [], _ :: _ | _ :: _, [] => isFalse (by simp)

/-- `decEqMembers ms ns` decides `ms = ns`. -/
def decEqMembers : (ms ns : List (String × Value)) → Decidable (ms = ns)
  | [], [] => isTrue rfl
  | (k, v) :: ms, (l, w) :: ns =>
      if hk : k = l then
        match decEq v w, decEqMembers ms ns with
        | isTrue h, isTrue hs => isTrue (hk ▸ h ▸ hs ▸ rfl)
        | isFalse h, _ => isFalse (by simp [h])
        | _, isFalse hs => isFalse (by simp [hs])
      else isFalse (by simp [hk])
  | [], _ :: _ | _ :: _, [] => isFalse (by simp)

end

instance : DecidableEq Value := decEq

/-! ### Views -/

/-- `asString? v` is the text of a string. -/
def asString? : Value → Option String
  | .string s => some s
  | _ => none

/-- `asArray? v` are the items of an array. -/
def asArray? : Value → Option (List Value)
  | .array items => some items
  | _ => none

/-- `asObject? v` are the members of an object. -/
def asObject? : Value → Option (Dictionary Value)
  | .object members => some members
  | _ => none

/-- `asUInt64? v` is the value of a whole number that is not negative. -/
def asUInt64? : Value → Option UInt64
  | .number n => n.toUInt64?
  | _ => none

/-- `ofUInt64 n` is the number `n`. -/
def ofUInt64 (n : UInt64) : Value :=
  .number (.ofUInt64 n)

@[simp] theorem asUInt64?_ofUInt64 (n : UInt64) : (ofUInt64 n).asUInt64? = some n :=
  Number.toUInt64?_ofUInt64 n

end Value

end FacetQuery.Json
