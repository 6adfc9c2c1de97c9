import FacetQuery.Schema.Basic

/-!
# Requests

A request is read against the schema of the resource that it is for.
-/

namespace FacetQuery

/-- The parameters of a request and the schema of its resource. -/
structure Request where
  params : Dictionary Json.Value
  schema : Schema
deriving DecidableEq

namespace Request

/-- `param? r name` is the parameter `name`, if the request has it. -/
def param? (r : Request) (name : String) : Option Json.Value :=
  Dictionary.find? name r.params

end Request

end FacetQuery
