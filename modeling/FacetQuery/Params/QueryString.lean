import FacetQuery.Params.Key
import FacetQuery.Params.Scalar
import FacetQuery.Params.Tree
import FacetQuery.Text.Bytes
import FacetQuery.Text.Split

/-!
# Params — Query strings

A query string is a list of `key=value` pairs between ampersands. Each pair with a key puts one
value into the tree of parameters.
-/

namespace FacetQuery.Params

open Json

/-- A pair of a query string, decoded. -/
structure Pair where
  key : List Char
  value : List Char
deriving DecidableEq, Repr

namespace Pair

/-- `read cs` is the pair that `cs` spells. The first `=` ends the key; without one the value is
empty. -/
def read (cs : List Char) : Pair :=
  let (key, value) := Text.cutFirst '=' cs
  ⟨Text.percentDecode key, Text.percentDecode value⟩

/-- `assignTo p params` puts the value of `p` where its key says. -/
def assignTo (p : Pair) (params : Dictionary Value) : Dictionary Value :=
  let key := Key.read p.key
  assign (String.ofList key.root) (key.path.map String.ofList) (scalar p.value) params

end Pair

/-- `body cs` is a query string without the `?` in front of it. -/
def body : List Char → List Char
  | '?' :: cs => cs
  | cs => cs

/-- `pairTexts query` are the texts between the ampersands of a query string; empty ones do not
count. -/
def pairTexts (query : String) : List (List Char) :=
  (Text.splitOn '&' (body query.toList)).filter (· ≠ [])

/-- `pairs query` are the pairs of a query string that have a key. -/
def pairs (query : String) : List Pair :=
  ((pairTexts query).map Pair.read).filter (·.key ≠ [])

/-- `ofPairs ps` is the tree that the pairs build. -/
def ofPairs (ps : List Pair) : Dictionary Value :=
  ps.foldl (fun params p => p.assignTo params) []

/-- `read query` are the parameters of a query string. -/
def read (query : String) : Dictionary Value :=
  ofPairs (pairs query)

end FacetQuery.Params
