import FacetQuery.Backend.Basic
import FacetQuery.Request
import FacetQuery.Text.Split

/-!
# Facet — Sorting

A sort is a text of fields between commas, an array of fields, or an object from fields to
directions. In the first two, `-` in front of a field means descending.

- `Sort.entries` reads all three forms into fields with what is given as their direction.
- `Sort.flat` lists them by field.
-/

namespace FacetQuery.Sort

open Json

/-- The name of the parameter. -/
def parameter : String := "sort"

/-! ### Reading -/

/-- A field with what is given as its direction. -/
abbrev Entry := String × Value

/-- `ofField f` is a field with its direction as a value. -/
def ofField (f : SortField) : Entry :=
  (f.field, .string f.order.name)

/-- `signed cs` is the field that `cs` names, descending behind a minus sign. -/
def signed : List Char → SortField
  | '-' :: cs => ⟨String.ofList cs, .desc⟩
  | cs => ⟨String.ofList cs, .asc⟩

/-- `ofText cs` are the fields between the commas of a text; blank ones do not count. -/
def ofText (cs : List Char) : List SortField :=
  (((Text.splitOn ',' cs).map Text.trim).filter (· ≠ [])).map signed

/-- `ofItem v` is the field that an item of an array names. -/
def ofItem : Value → Except Refusal SortField
  | .string s => .ok (signed (Text.trim s.toList))
  | _ => .error (.invalid .sortItemShape)

/-- `entries v` reads the sort of a request. -/
def entries : Value → Except Refusal (List Entry)
  | .string s => .ok ((ofText s.toList).map ofField)
  | .array items => do return (← items.mapM ofItem).map ofField
  | .object members => .ok members
  | _ => .error (.invalid .sortShape)

/-! ### Validating -/

/-- `checkEntries v fields seen es` checks the entries in order; `seen` are the fields before. -/
def checkEntries (v : Validator) (fields : Fields) : List String → List Entry → Except Refusal Unit
  | _, [] => .ok ()
  | seen, (field, order) :: es => do
      if field = "" then throw (.invalid .sortUnnamed)
      if !fields.permits field then throw (.invalid (.notSortable field))
      if field ∈ seen then throw (.invalid (.sortedTwice field))
      v.check .sort field order
      checkEntries v fields (field :: seen) es

/-- `validate v r` checks the sort of the request; that of the schema needs no check. -/
def validate (v : Validator) (r : Request) : Except Refusal Unit :=
  match r.param? parameter with
  | some value => do checkEntries v r.schema.sort.fields [] (← entries value)
  | none => .ok ()

/-! ### Applying -/

/-- `flat r` lists the sort of the request, or none if it cannot be read, or that of the schema if
the request has no sort. A field named again keeps its first place and takes its last direction. -/
def flat (r : Request) : Dictionary Value :=
  match r.param? parameter with
  | some value =>
      match entries value with
      | .ok es => Dictionary.ofEntries es
      | .error _ => []
  | none => Dictionary.ofEntries (r.schema.sort.default.map ofField)

/-- `direction? v` is the direction that a value names. -/
def direction? : Value → Option Direction
  | .string s => Direction.ofName? s
  | _ => none

/-- `apply b params` sorts by each listed field. -/
def apply {β : Type} (b : Backend β) (params : Dictionary Value) : Build β Unit :=
  params.forM fun entry =>
    match direction? entry.2 with
    | some order => b.sort ⟨entry.1, order⟩
    | none => throw (.invalid (.valueShape entry.1 .direction))

end FacetQuery.Sort
