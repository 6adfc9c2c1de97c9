import FacetQuery.Json.Writer
import FacetQuery.Schema.Basic

/-!
# Schema — Writing

The JSON form of a schema, with every field written out.
-/

namespace FacetQuery

open Json

/-- `toValue fields` lists the allowed names, `null` for any. -/
def Fields.toValue (fields : Fields) : Value :=
  match fields.allowed with
  | none => .null
  | some set => .array (set.names.map .string)

/-- `toValue s` is the JSON form of a filter schema. -/
def FilterSchema.toValue (s : FilterSchema) : Value :=
  .object
    [("isEnabled", .bool s.isEnabled), ("fields", s.fields.toValue), ("default", .object s.default)]

/-- `toValue s` is the JSON form of a sort field. -/
def SortField.toValue (s : SortField) : Value :=
  .object [("field", .string s.field), ("order", .string s.order.name)]

/-- `toValue s` is the JSON form of a sort schema. -/
def SortSchema.toValue (s : SortSchema) : Value :=
  .object
    [("isEnabled", .bool s.isEnabled), ("fields", s.fields.toValue),
     ("default", .array (s.default.map SortField.toValue))]

/-- `toValue s` is the JSON form of a page schema. -/
def PageSchema.toValue (s : PageSchema) : Value :=
  .object
    [("isEnabled", .bool s.isEnabled), ("defaultSize", .ofUInt64 s.defaultSize),
     ("defaultNumber", .ofUInt64 s.defaultNumber)]

namespace Schema

/-- `toValue s` is the JSON form of `s`. -/
def toValue (s : Schema) : Value :=
  .object
    [("filter", s.filter.toValue), ("sort", s.sort.toValue), ("page", s.page.toValue)]

/-- `write s` is the text of a file with the schema `s`. -/
def write (s : Schema) : String :=
  s.toValue.indented ++ "\n"

end Schema

end FacetQuery
