import FacetQuery.Proofs.Facet.Clauses
import FacetQuery.Proofs.Query.Asked

/-!
# Query — The order of the facets

The facets of a request share one query under construction, and still none of them notices the
others.

* `Facet.run_inOrder_perm`: facets that succeed one after another succeed in any order, and leave
  the same query.
* `Request.Independent`: what the facets of a request have to do with each other;
  `Request.independent`: this holds of every request, whatever the dialect.
-/

namespace FacetQuery

open Sql

/-- `inOrder fs b r` runs the facets `fs` one after another. -/
def Facet.inOrder {β : Type} (fs : List Facet) (b : Backend β) (r : Request) : Build β Unit :=
  fs.forM fun f => f.run b r

namespace Facet

/-- Facets run in order succeed if the first does, and the others on what it leaves. -/
theorem run_inOrder_cons_ok_iff {β : Type} {f : Facet} {fs : List Facet} {b : Backend β}
    {r : Request} {q q' : β} :
    (inOrder (f :: fs) b r).run q = (.ok (), q') ↔
      ∃ q₁, (f.run b r).run q = (.ok (), q₁) ∧ (inOrder fs b r).run q₁ = (.ok (), q') :=
  Build.run_bind_ok.trans ⟨fun ⟨_, q₁, h⟩ => ⟨q₁, h⟩, fun ⟨q₁, h⟩ => ⟨(), q₁, h⟩⟩

variable {v : Validator} {r : Request} {q q' : Select}

/-- **Facets in another order** succeed if they did, with the same query. Induction on the
permutation: a swap of two neighbours is what their clauses allow. -/
theorem run_inOrder_perm {fs fs' : List Facet} (hp : fs.Perm fs')
    (h : (inOrder fs (Backend.ofDialect v) r).run q = (.ok (), q')) :
    (inOrder fs' (Backend.ofDialect v) r).run q = (.ok (), q') := by
  induction hp generalizing q with
  | nil => exact h
  | cons f _ ih =>
      -- The first facet runs on the same query, and the others run on what it leaves.
      obtain ⟨q₁, hf, h⟩ := run_inOrder_cons_ok_iff.mp h
      exact run_inOrder_cons_ok_iff.mpr ⟨q₁, hf, ih h⟩
  | swap f g fs =>
      -- A facet that changes places with itself leaves the list as it was.
      by_cases hne : g = f
      · rwa [hne] at h ⊢
      obtain ⟨q₁, hg, h⟩ := run_inOrder_cons_ok_iff.mp h
      obtain ⟨q₂, hf, h⟩ := run_inOrder_cons_ok_iff.mp h
      obtain ⟨q₃, hf, hg⟩ := (writes_run g v r).run_swap (writes_run f v r) hne hg hf
      exact run_inOrder_cons_ok_iff.mpr ⟨q₃, hf, run_inOrder_cons_ok_iff.mpr ⟨q₂, hg, h⟩⟩
  | trans _ _ ih ih' => exact ih' (ih h)

end Facet

namespace Request

/-- A request runs its three facets in one of these orders. -/
theorem run_inOrder_ok_iff {β : Type} {b : Backend β} {r : Request} {q q' : β} :
    (Facet.inOrder [.filter, .sort, .page] b r).run q = (.ok (), q') ↔ r.query b q = .ok q' := by
  simp only [Facet.run_inOrder_cons_ok_iff, query_ok_iff]
  constructor
  · rintro ⟨q₁, h₁, q₂, h₂, q₃, h₃, hend⟩
    cases hend
    exact ⟨q₁, q₂, h₁, h₂, h₃⟩
  · rintro ⟨q₁, q₂, h₁, h₂, h₃⟩
    exact ⟨q₁, h₁, q₂, h₂, q', h₃, rfl⟩

/-- `Independent b r` says that the facets of `r` can be run without regard to each other. -/
structure Independent (b : Backend Select) (r : Request) : Prop where
  /-- Whether a facet succeeds, and what it says if not, does not depend on the query. -/
  outcome : ∀ (f : Facet) (q q' : Select), ((f.run b r).run q).1 = ((f.run b r).run q').1
  /-- A filter changes the condition alone. -/
  filter : ∀ q, ∃ e, ((Facet.filter.run b r).run q).2 = { q with condition := e }
  /-- A sort changes the ordering alone. -/
  sort : ∀ q, ∃ keys, ((Facet.sort.run b r).run q).2 = { q with orderBy := keys }
  /-- A page changes the limit alone. -/
  page : ∀ q, ∃ l, ((Facet.page.run b r).run q).2 = { q with limit := l }
  /-- All orders are as good as the one in which a request is turned into a query. -/
  order : ∀ (fs : List Facet) (q q' : Select), fs.Perm [.filter, .sort, .page] →
    ((Facet.inOrder fs b r).run q = (.ok (), q') ↔ r.query b q = .ok q')

/-- **The facets of a request are independent** in every dialect of SQL: outcomes, clauses and the
order of the runs. -/
theorem independent (v : Validator) (r : Request) : Independent (.ofDialect v) r where
  outcome f := (Facet.writes_run f v r).fst_run_eq
  filter   := (Facet.writes_run .filter v r).exists_withClause
  sort     := (Facet.writes_run .sort v r).exists_withClause
  page     := (Facet.writes_run .page v r).exists_withClause
  order fs q q' hp := by
    rw [← run_inOrder_ok_iff]
    exact ⟨Facet.run_inOrder_perm hp, Facet.run_inOrder_perm hp.symm⟩

theorem independent_wide :
    wide.query .sql (.ofTable "t") = .ok wideQuery ∧
      (Facet.inOrder [.page, .filter, .sort] .sql wide).run (.ofTable "t") =
        (.ok (), wideQuery) := by
  have hp : [Facet.page, .filter, .sort].Perm [.filter, .sort, .page] := by decide
  exact ⟨query_wide, ((independent .full wide).order _ _ _ hp).mpr query_wide⟩

end Request

end FacetQuery
