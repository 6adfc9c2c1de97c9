import FacetQuery.Backend.Sql
import FacetQuery.Proofs.Params.Roots
import FacetQuery.Session

/-!
# Query — What of a query string a request heeds

A facet looks at its own parameter and at the schema, and a facet that is switched off not even at
its parameter.  So of a query string nothing matters but what it says, root by root, for the facets
that are switched on.

* `Request.query_congr`: requests that agree on these parameters are turned into the same query.
* `Params.ReadByRoot`: what the pairs of different roots have to do with each other;
  `Params.readByRoot`: every query string is read so.
-/

namespace FacetQuery

open Json

variable {β : Type} {r r' : Request}

/-! ### Facets -/

namespace Facet

variable {f : Facet}

/-- What a facet lists is told by its own parameter and the schema. -/
theorem entries_congr (hs : r'.schema = r.schema)
    (hp : r'.param? f.parameter = r.param? f.parameter) : f.entries r' = f.entries r := by
  cases f with
  | filter =>
      rw [parameter] at hp
      simp only [entries, Filter.flat, Filter.requested, hp, hs]
  | sort =>
      rw [parameter] at hp
      simp only [entries, Sort.flat, hp, hs]
  | page =>
      rw [parameter] at hp
      simp only [entries, Paging.flat, Paging.number, hp, hs]

/-- What it checks is told by them as well. -/
theorem check_congr (v : Validator) (hs : r'.schema = r.schema)
    (hp : r'.param? f.parameter = r.param? f.parameter) : f.check v r' = f.check v r := by
  cases f with
  | filter =>
      rw [parameter] at hp
      simp only [check, Filter.validate, Filter.requested, hp, hs]
  | sort =>
      rw [parameter] at hp
      simp only [check, Sort.validate, hp, hs]
  | page =>
      rw [parameter] at hp
      simp only [check, Paging.validate, hp]

/-- A facet runs on the schema and, if it is switched on there, on its own parameter. -/
theorem run_congr (b : Backend β) (hs : r'.schema = r.schema)
    (hp : f.isEnabled r.schema = true → r'.param? f.parameter = r.param? f.parameter) :
    f.run b r' = f.run b r := by
  simp only [run, validate, flat, hs]
  split
  · next hon => rw [entries_congr hs (hp hon), check_congr _ hs (hp hon)]
  · rfl

end Facet

/-- **Requests that agree** on the schema and on the parameters of the facets that are switched on
there are turned into the same query, or refused alike. -/
theorem Request.query_congr (b : Backend β) (start : β) (hs : r'.schema = r.schema)
    (hp : ∀ f : Facet, f.isEnabled r.schema = true →
      r'.param? f.parameter = r.param? f.parameter) :
    r'.query b start = r.query b start := by
  rw [query, query, build, build, Facet.run_congr b hs (hp .filter),
    Facet.run_congr b hs (hp .sort), Facet.run_congr b hs (hp .page)]

/-! ### Query strings -/

namespace Params

/-- `ReadByRoot query` says that what a query string says of one parameter has nothing to do with
what it says of others. -/
structure ReadByRoot (query : String) : Prop where
  /-- The pairs of one root are enough for the parameter at this root. -/
  value : ∀ k, Dictionary.find? k (read (onlyRoot k query)) = Dictionary.find? k (read query)
  /-- Roots stand in the order of their first pairs. -/
  order : Dictionary.keys (read query) = ((pairs query).map Pair.root).eraseDups
  /-- Pairs without a key can be put anywhere, or left out. -/
  unkeyed : ∀ query', (texts query').filter (IsKeyed ·) = (texts query).filter (IsKeyed ·) →
    read query' = read query
  /-- The pairs of the facets that are switched on, root by root, are enough for the query. -/
  outcome : ∀ (query' : String) (schema : Schema) {β : Type} (b : Backend β) (start : β),
    (∀ f : Facet, f.isEnabled schema = true →
      (pairs query').filter (·.root = f.parameter) = (pairs query).filter (·.root = f.parameter)) →
    Request.query ⟨read query', schema⟩ b start = Request.query ⟨read query, schema⟩ b start

/-- **A query string is read root by root.** Each of its parts holds of the pairs as they stand, and
of all requests made from them. -/
theorem readByRoot (query : String) : ReadByRoot query where
  value k       := find?_read_onlyRoot k query
  order         := keys_ofPairs (pairs query)
  unkeyed _     := read_eq_of_keyed
  outcome _ _ _ b start h :=
    Request.query_congr b start rfl fun f hf => find?_ofPairs_congr (h f hf)

/-- Pages are switched off. -/
def unpaged : Schema :=
  { Schema.standard with page := { PageSchema.standard with isEnabled := false } }

/-- Pages are switched off, so the first pair is not heeded; two have no key; and the pairs of the
two other roots can be put in another order. -/
theorem readByRoot_mixed :
    Request.query ⟨read "?page=x&sort=b&=z&&filter%5Ba%5D=1&n=0&filter[b]", unpaged⟩ .sql
        (.ofTable "t") =
      Request.query ⟨read "filter[a]=1&filter[b]=&sort=b", unpaged⟩ .sql (.ofTable "t") := by
  refine (readByRoot _).outcome _ unpaged .sql _ fun f hf => ?_
  cases f with
  | filter | sort => decide +kernel
  | page          => cases hf

end Params

end FacetQuery
