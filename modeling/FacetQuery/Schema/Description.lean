import FacetQuery.Json.Schema
import FacetQuery.Schema.Writer

/-!
# Schema — Description

The description of the JSON form of schemas, for editors and other checkers.
-/

namespace FacetQuery.Schema

open Json

/-- The number one as a double. -/
def one : Number :=
  .real ⟨0x3FF0000000000000⟩ (by decide)

/-- The fields of a facet by reference, unrestricted unless given. -/
def fieldsDocument : Document :=
  [.default .null, .allOf [[.ref "Fields"]]]

/-- A switch that is on unless given. -/
def switchDocument : Document :=
  [.default (.bool true), .type ["boolean"]]

/-- `countDocument text n` describes a positive count that is `n` unless given. -/
def countDocument (text : String) (n : UInt64) : Document :=
  [.description text, .default (.ofUInt64 n), .type ["integer"], .format "uint64", .minimum one]

/-- Filter schemas. -/
def filterDocument : Document :=
  [.description "Filtering.",
   .type ["object"],
   .properties
     [("isEnabled", switchDocument),
      ("fields", fieldsDocument),
      ("default",
        [.description ("Used when the request has no `filter`, in the same "
            ++ "`\x7bfield: \x7boperator: value\x7d\x7d` shape as a request."),
         .default (.object []),
         .type ["object"],
         .openMembers])]]

/-- Restrictions of fields. -/
def restrictionDocument : Document :=
  [.description "Which fields a facet may reference. `None` leaves the facet unrestricted.",
   .type ["array", "null"],
   .items [.type ["string"]],
   .uniqueItems]

/-- Sort schemas. -/
def sortDocument : Document :=
  [.description "Sorting.",
   .type ["object"],
   .properties
     [("isEnabled", switchDocument),
      ("fields", fieldsDocument),
      ("default",
        [.description "Used when the request has no `sort`.",
         .default (.array []),
         .type ["array"],
         .items [.ref "SortField"]])]]

/-- Fields of a sort. -/
def sortFieldDocument : Document :=
  [.description "A single field of a default sort.",
   .type ["object"],
   .required ["field", "order"],
   .properties [("field", [.type ["string"]]), ("order", [.ref "OrderDirection"])]]

/-- Directions. -/
def directionDocument : Document :=
  [.description "The direction of a sort.",
   .type ["string"],
   .enum (Direction.all.map Direction.name)]

/-- Page schemas. -/
def pageDocument : Document :=
  [.description "Pagination.",
   .type ["object"],
   .properties
     [("isEnabled", switchDocument),
      ("defaultSize", countDocument "Rows per page. At least 1." PageSchema.standard.defaultSize),
      ("defaultNumber",
        countDocument "The 1-based page used when the request has no `page`."
          PageSchema.standard.defaultNumber)]]

/-- `partDocument name v` describes a part of a schema that is `v` unless given. -/
def partDocument (name : String) (v : Value) : Document :=
  [.default v, .allOf [[.ref name]]]

/-- Schemas. -/
def document : Document :=
  [.dialect "http://json-schema.org/draft-07/schema#",
   .title "Schema",
   .description "The query facets a resource exposes.",
   .type ["object"],
   .properties
     [("filter", partDocument "FilterSchema" FilterSchema.standard.toValue),
      ("sort", partDocument "SortSchema" SortSchema.standard.toValue),
      ("page", partDocument "PageSchema" PageSchema.standard.toValue)],
   .definitions
     [("FilterSchema", filterDocument),
      ("Fields", restrictionDocument),
      ("SortSchema", sortDocument),
      ("SortField", sortFieldDocument),
      ("OrderDirection", directionDocument),
      ("PageSchema", pageDocument)]]

end FacetQuery.Schema
