import FacetQuery.Facet.Filter
import FacetQuery.Facet.Paging
import FacetQuery.Facet.Sort

/-!
# Facet — The three facets of a request

Filtering, sorting and paging follow one pattern: parameters that can be listed flat, checked, and
applied to a backend. A facet that the schema switches off has no parameters, passes every check
and applies nothing.
-/

namespace FacetQuery

open Json

/-- A facet of a request. -/
inductive Facet where
  | filter
  | sort
  | page
deriving DecidableEq, Repr

namespace Facet

/-- `parameter f` is the name of the parameter that belongs to `f`. -/
def parameter : Facet → String
  | .filter => Filter.parameter
  | .sort => Sort.parameter
  | .page => Paging.parameter

/-- `isEnabled f s` says that the schema `s` has `f` switched on. -/
def isEnabled : Facet → Schema → Bool
  | .filter, s => s.filter.isEnabled
  | .sort, s => s.sort.isEnabled
  | .page, s => s.page.isEnabled

/-- `entries f r` lists the parameters of `f`, whether it is switched on or not. -/
def entries : Facet → Request → Dictionary Value
  | .filter, r => Filter.flat r
  | .sort, r => Sort.flat r
  | .page, r => Paging.flat r

/-- `check f v r` checks the parameters of `f`, whether it is switched on or not. -/
def check : Facet → Validator → Request → Except Refusal Unit
  | .filter, v, r => Filter.validate v r
  | .sort, v, r => Sort.validate v r
  | .page, v, r => Paging.validate v r

/-- `apply f b params` applies listed parameters. -/
def apply {β : Type} : Facet → Backend β → Dictionary Value → Build β Unit
  | .filter, b, params => Filter.apply b params
  | .sort, b, params => Sort.apply b params
  | .page, b, params => Paging.apply b params

/-- `flat f r` lists the parameters of `f`. -/
def flat (f : Facet) (r : Request) : Dictionary Value :=
  if f.isEnabled r.schema then f.entries r else []

/-- `flatPrefixed f r` lists the parameters of `f` under keys that begin with its own. -/
def flatPrefixed (f : Facet) (r : Request) : Dictionary Value :=
  Dictionary.ofEntries ((f.flat r).map fun entry => (f.parameter ++ ":" ++ entry.1, entry.2))

/-- A listed parameter together with its key. -/
structure Parameter where
  key : String
  value : Value
deriving DecidableEq

/-- `parsed f r` looks the parameters of `f` up by the keys that begin with its own. -/
def parsed (f : Facet) (r : Request) : Dictionary Parameter :=
  (f.flatPrefixed r).map fun entry => (entry.1, ⟨entry.1, entry.2⟩)

/-- `validate f v r` checks the parameters of `f`. -/
def validate (f : Facet) (v : Validator) (r : Request) : Except Refusal Unit :=
  if f.isEnabled r.schema then f.check v r else .ok ()

/-- `run f b r` checks the parameters of `f` and then applies them. -/
def run {β : Type} (f : Facet) (b : Backend β) (r : Request) : Build β Unit := do
  Build.ofExcept (f.validate b.validator r)
  if f.isEnabled r.schema then f.apply b (f.flat r)

end Facet

end FacetQuery
