import FacetQuery.Json.Value
import FacetQuery.Operator
import FacetQuery.Schema.FieldSet

/-!
# Schema — What a resource lets requests ask

A schema has a part for each facet of a request: filtering, sorting and paging. Each part can be
switched off; the first two may restrict the fields; all three say what holds when a request leaves
the facet out.
-/

namespace FacetQuery

/-- The fields that a facet may name. -/
structure Fields where
  /-- The allowed names, `none` for any. -/
  allowed : Option FieldSet
deriving DecidableEq

namespace Fields

/-- Any field. -/
def any : Fields := ⟨none⟩

/-- `only names` allows just the names given. -/
def only (names : List String) : Fields := ⟨some (.ofNames names)⟩

/-- `permits fields name` says that the facet may name `name`. -/
def permits (fields : Fields) (name : String) : Bool :=
  match fields.allowed with
  | none => true
  | some set => set.contains name

/-- `Allows fields name`: the fields are not restricted, or `name` is one of those that they are
restricted to. -/
def Allows (fields : Fields) (name : String) : Prop :=
  ∀ set, fields.allowed = some set → name ∈ set.names

theorem permits_iff {fields : Fields} {name : String} :
    fields.permits name = true ↔ fields.Allows name := by
  unfold permits Allows
  cases fields.allowed <;> simp [FieldSet.contains]

theorem permits_eq_false_iff {fields : Fields} {name : String} :
    fields.permits name = false ↔ ¬ fields.Allows name := by
  rw [← permits_iff, Bool.not_eq_true]

theorem allows_any (name : String) : any.Allows name :=
  nofun

theorem allows_only {names : List String} {name : String} :
    (only names).Allows name ↔ name ∈ names := by
  simp [Allows, only, FieldSet.mem_ofNames]

end Fields

/-- Filtering. -/
structure FilterSchema where
  isEnabled : Bool
  fields : Fields
  /-- The filter of requests without one, in the form in which requests write theirs. -/
  default : Dictionary Json.Value
deriving DecidableEq

/-- A field and a direction. -/
structure SortField where
  field : String
  order : Direction
deriving DecidableEq, Repr

/-- Sorting. -/
structure SortSchema where
  isEnabled : Bool
  fields : Fields
  /-- The sort of requests without one. -/
  default : List SortField
deriving DecidableEq

/-- Paging. -/
structure PageSchema where
  isEnabled : Bool
  /-- Rows per page, at least one. -/
  defaultSize : UInt64
  /-- The page, counted from one, of requests without one. -/
  defaultNumber : UInt64
deriving DecidableEq, Repr

namespace FilterSchema

/-- Any field, and nothing filtered unless asked for. -/
def standard : FilterSchema := ⟨true, .any, []⟩

end FilterSchema

namespace SortSchema

/-- Any field, and nothing sorted unless asked for. -/
def standard : SortSchema := ⟨true, .any, []⟩

end SortSchema

namespace PageSchema

/-- Twenty rows, the first page. -/
def standard : PageSchema := ⟨true, 20, 1⟩

end PageSchema

/-- What a resource lets requests ask. -/
structure Schema where
  filter : FilterSchema
  sort : SortSchema
  page : PageSchema
deriving DecidableEq

namespace Schema

/-- Everything on, nothing restricted. -/
def standard : Schema := ⟨.standard, .standard, .standard⟩

/-- Everything off. -/
def disabled : Schema :=
  { filter := { FilterSchema.standard with isEnabled := false }
    sort := { SortSchema.standard with isEnabled := false }
    page := { PageSchema.standard with isEnabled := false } }

end Schema

end FacetQuery
