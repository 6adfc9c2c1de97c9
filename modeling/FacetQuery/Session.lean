import FacetQuery.Facet.Basic

/-!
# Sessions

A session turns one request into a query, facet by facet. Each facet is visited: asked about its
parameters and its schema, validated, and at last run.

- A validation that has passed is not repeated in the same visit; one that has failed is.
- `Request.build` runs all three facets in turn.
-/

namespace FacetQuery

open Json

/-- The part of a schema that belongs to a facet. -/
inductive FacetSchema where
  | filter (s : FilterSchema)
  | sort (s : SortSchema)
  | page (s : PageSchema)
deriving DecidableEq

/-- `ofSchema f s` is the part of `s` that belongs to `f`. -/
def FacetSchema.ofSchema (s : Schema) : Facet → FacetSchema
  | .filter => .filter s.filter
  | .sort => .sort s.sort
  | .page => .page s.page

/-- A visit of a facet: whether a validation has passed. -/
structure Visit where
  facet : Facet
  isValidated : Bool
deriving DecidableEq, Repr

/-- A question to a facet. -/
inductive Call where
  | parameter
  | isEnabled
  | schema
  | param
  | params
  | isValidated
  | flat
  | flatPrefixed
  | parsed
  | validate
deriving DecidableEq, Repr

/-- The answer to a question. -/
inductive Answer where
  | name (s : String)
  | flag (b : Bool)
  | schema (s : FacetSchema)
  | value? (v : Option Value)
  | entries (d : Dictionary Value)
  | parsed (d : Dictionary Facet.Parameter)
  | outcome (result : Except Refusal Unit)

namespace Visit

variable {β : Type}

/-- `start f` begins a visit of `f`. -/
def start (f : Facet) : Visit := ⟨f, false⟩

/-- `validate visit v r` validates unless that has passed before. -/
def validate (visit : Visit) (v : Validator) (r : Request) : Except Refusal Unit × Visit :=
  if visit.isValidated then (.ok (), visit)
  else match visit.facet.validate v r with
    | .ok () => (.ok (), { visit with isValidated := true })
    | .error e => (.error e, visit)

/-- `call visit v r c` answers the question `c`. -/
def call (visit : Visit) (v : Validator) (r : Request) : Call → Answer × Visit
  | .parameter => (.name visit.facet.parameter, visit)
  | .isEnabled => (.flag (visit.facet.isEnabled r.schema), visit)
  | .schema => (.schema (.ofSchema r.schema visit.facet), visit)
  | .param => (.value? (r.param? visit.facet.parameter), visit)
  | .params => (.entries r.params, visit)
  | .isValidated => (.flag visit.isValidated, visit)
  | .flat => (.entries (visit.facet.flat r), visit)
  | .flatPrefixed => (.entries (visit.facet.flatPrefixed r), visit)
  | .parsed => (.parsed (visit.facet.parsed r), visit)
  | .validate =>
      let (result, visit) := visit.validate v r
      (.outcome result, visit)

/-- `calls visit v r cs` answers questions one after another. -/
def calls (visit : Visit) (v : Validator) (r : Request) : List Call → List Answer × Visit
  | [] => ([], visit)
  | c :: cs =>
      let (answer, visit) := visit.call v r c
      let (answers, visit) := visit.calls v r cs
      (answer :: answers, visit)

/-- `run visit b r` validates unless that has passed before, and applies the facet. -/
def run (visit : Visit) (b : Backend β) (r : Request) : Build β Unit := do
  Build.ofExcept (visit.validate b.validator r).1
  if visit.facet.isEnabled r.schema then visit.facet.apply b (visit.facet.flat r)

end Visit

namespace Request

/-- `build r b` filters, sorts and pages, in that order. -/
def build {β : Type} (r : Request) (b : Backend β) : Build β Unit := do
  Facet.filter.run b r
  Facet.sort.run b r
  Facet.page.run b r

/-- `query r b start` is the query that the request asks for, from `start` on. -/
def query {β : Type} (r : Request) (b : Backend β) (start : β) : Except Refusal β :=
  match (r.build b).run start with
  | (.ok (), q) => .ok q
  | (.error e, _) => .error e

end Request

end FacetQuery
