import FacetQuery.Json.Value

/-!
# Params — Trees

A tree of request parameters grows by one parameter after another. Each puts a value at the end of
a path: under a name in an object, or, for an empty segment, at the end of an array.

- `build` is a tree with that one value.
- `merge` puts the value into a tree. Where a path ends at a value that is there, the two form an
  array; where it goes on at a value of the wrong kind, that value gives way.
-/

namespace FacetQuery.Params

open Json

/-- `build path v` is the smallest tree with `v` at the end of `path`. -/
def build : List String → Value → Value
  | [], v => v
  | segment :: path, v =>
      if segment = "" then .array [build path v] else .object [(segment, build path v)]

/-- `merge path v tree` is `tree` with `v` at the end of `path`. -/
def merge : List String → Value → Value → Value
  | [], v, .array items => .array (items ++ [v])
  | [], v, old => .array [old, v]
  | segment :: path, v, .array items =>
      if segment = "" then .array (items ++ [build path v]) else build (segment :: path) v
  | segment :: path, v, .object members =>
      if segment = "" then build (segment :: path) v
      else .object (Dictionary.update segment (build path v) (merge path v) members)
  | segment :: path, v, _ => build (segment :: path) v

/-- `assign root path v params` puts `v` at the end of `path` below the parameter `root`. -/
def assign (root : String) (path : List String) (v : Value) (params : Dictionary Value) :
    Dictionary Value :=
  Dictionary.update root (build path v) (merge path v) params

end FacetQuery.Params
