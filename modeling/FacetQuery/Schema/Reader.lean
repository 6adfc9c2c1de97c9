import FacetQuery.Json.Reader.Typed
import FacetQuery.Schema.Basic

/-!
# Schema — Reading

The JSON form of a schema. Every field has a default but those of a sort field; `null` stands for
unrestricted fields and for nothing else. Lists and objects may be nested 127 deep, except in the
values of unknown keys.
-/

namespace FacetQuery

open Json Json.Reader

/-- `fieldsReader levels` reads the fields that a facet may name. -/
def fieldsReader (levels : Nat) : Reader Fields := do
  match ← token with
  | some 'n' => do word ['n', 'u', 'l', 'l']; pure .any
  | _ => return .only (← list levels fun _ => string "a string")

/-! ### Filtering -/

/-- The fields of a filter schema read so far. -/
structure FilterParts where
  isEnabled : Option Bool := none
  fields : Option Fields := none
  default : Option (Dictionary Value) := none

namespace FilterParts

/-- The fields of a filter schema. -/
def slots : List (Slot FilterParts) :=
  [{ name := "isEnabled"
     isSet := (·.isEnabled.isSome)
     read := fun _ s => return { s with isEnabled := some (← boolean) } },
   { name := "fields"
     isSet := (·.fields.isSome)
     read := fun levels s => return { s with fields := some (← fieldsReader levels) } },
   { name := "default"
     isSet := (·.default.isSome)
     read := fun levels s => return { s with default := some (← map levels) } }]

/-- `complete s` fills what is missing with the defaults. -/
def complete (s : FilterParts) : FilterSchema :=
  { isEnabled := s.isEnabled.getD FilterSchema.standard.isEnabled
    fields := s.fields.getD FilterSchema.standard.fields
    default := s.default.getD FilterSchema.standard.default }

end FilterParts

/-- `filterReader levels` reads a filter schema. -/
def filterReader (levels : Nat) : Reader FilterSchema :=
  record "struct FilterSchema" levels FilterParts.slots {}
    (fun s => pure s.complete) (fun s => pure s.complete)

/-! ### Sorting -/

/-- The parts of a sort field read so far. -/
structure SortFieldParts where
  field : Option String := none
  order : Option Direction := none

namespace SortFieldParts

/-- The fields of a sort field. -/
def slots : List (Slot SortFieldParts) :=
  [{ name := "field"
     isSet := (·.field.isSome)
     read := fun _ s => return { s with field := some (← string "a string") } },
   { name := "order"
     isSet := (·.order.isSome)
     read := fun levels s =>
       return { s with order := some (← choice levels Direction.ofName? "`asc` or `desc`") } }]

/-- `ofObject s` needs both parts. -/
def ofObject (s : SortFieldParts) : Reader SortField :=
  match s.field, s.order with
  | some field, some order => pure ⟨field, order⟩
  | none, _ => unfit (.missingField "field")
  | _, none => unfit (.missingField "order")

/-- `ofList s` needs both parts. -/
def ofList (s : SortFieldParts) : Reader SortField :=
  match s.field, s.order with
  | some field, some order => pure ⟨field, order⟩
  | none, _ => unfit (.wrongLength 0 "struct SortField with 2 elements")
  | _, none => unfit (.wrongLength 1 "struct SortField with 2 elements")

end SortFieldParts

/-- `sortFieldReader levels` reads a field and a direction. -/
def sortFieldReader (levels : Nat) : Reader SortField :=
  record "struct SortField" levels SortFieldParts.slots {} SortFieldParts.ofObject
    SortFieldParts.ofList

/-- The fields of a sort schema read so far. -/
structure SortParts where
  isEnabled : Option Bool := none
  fields : Option Fields := none
  default : Option (List SortField) := none

namespace SortParts

/-- The fields of a sort schema. -/
def slots : List (Slot SortParts) :=
  [{ name := "isEnabled"
     isSet := (·.isEnabled.isSome)
     read := fun _ s => return { s with isEnabled := some (← boolean) } },
   { name := "fields"
     isSet := (·.fields.isSome)
     read := fun levels s => return { s with fields := some (← fieldsReader levels) } },
   { name := "default"
     isSet := (·.default.isSome)
     read := fun levels s => return { s with default := some (← list levels sortFieldReader) } }]

/-- `complete s` fills what is missing with the defaults. -/
def complete (s : SortParts) : SortSchema :=
  { isEnabled := s.isEnabled.getD SortSchema.standard.isEnabled
    fields := s.fields.getD SortSchema.standard.fields
    default := s.default.getD SortSchema.standard.default }

end SortParts

/-- `sortReader levels` reads a sort schema. -/
def sortReader (levels : Nat) : Reader SortSchema :=
  record "struct SortSchema" levels SortParts.slots {}
    (fun s => pure s.complete) (fun s => pure s.complete)

/-! ### Paging -/

/-- The fields of a page schema read so far. -/
structure PageParts where
  isEnabled : Option Bool := none
  defaultSize : Option UInt64 := none
  defaultNumber : Option UInt64 := none

namespace PageParts

/-- The fields of a page schema. -/
def slots : List (Slot PageParts) :=
  [{ name := "isEnabled"
     isSet := (·.isEnabled.isSome)
     read := fun _ s => return { s with isEnabled := some (← boolean) } },
   { name := "defaultSize"
     isSet := (·.defaultSize.isSome)
     read := fun _ s => return { s with defaultSize := some (← positive) } },
   { name := "defaultNumber"
     isSet := (·.defaultNumber.isSome)
     read := fun _ s => return { s with defaultNumber := some (← positive) } }]

/-- `complete s` fills what is missing with the defaults. -/
def complete (s : PageParts) : PageSchema :=
  { isEnabled := s.isEnabled.getD PageSchema.standard.isEnabled
    defaultSize := s.defaultSize.getD PageSchema.standard.defaultSize
    defaultNumber := s.defaultNumber.getD PageSchema.standard.defaultNumber }

end PageParts

/-- `pageReader levels` reads a page schema. -/
def pageReader (levels : Nat) : Reader PageSchema :=
  record "struct PageSchema" levels PageParts.slots {}
    (fun s => pure s.complete) (fun s => pure s.complete)

/-! ### Schemas -/

/-- The parts of a schema read so far. -/
structure SchemaParts where
  filter : Option FilterSchema := none
  sort : Option SortSchema := none
  page : Option PageSchema := none

namespace SchemaParts

/-- The parts of a schema. -/
def slots : List (Slot SchemaParts) :=
  [{ name := "filter"
     isSet := (·.filter.isSome)
     read := fun levels s => return { s with filter := some (← filterReader levels) } },
   { name := "sort"
     isSet := (·.sort.isSome)
     read := fun levels s => return { s with sort := some (← sortReader levels) } },
   { name := "page"
     isSet := (·.page.isSome)
     read := fun levels s => return { s with page := some (← pageReader levels) } }]

/-- `complete s` fills what is missing with the defaults. -/
def complete (s : SchemaParts) : Schema :=
  { filter := s.filter.getD .standard
    sort := s.sort.getD .standard
    page := s.page.getD .standard }

end SchemaParts

/-- `schemaReader levels` reads a schema. -/
def schemaReader (levels : Nat) : Reader Schema :=
  record "struct Schema" levels SchemaParts.slots {}
    (fun s => pure s.complete) (fun s => pure s.complete)

namespace Schema

/-- How deep lists and objects may be nested. -/
def maxLevels : Nat := 127

/-- `read text` is the schema that a JSON text describes. -/
def read (text : String) : Except ReadError Schema :=
  (schemaReader maxLevels).run text

end Schema

end FacetQuery
