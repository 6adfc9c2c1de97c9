import FacetQuery.Backend.Sql
import FacetQuery.Proofs.Facet.Basic

/-!
# Facet — The clause that a facet writes

A query has one clause for each facet: its condition, its ordering, its limit.

* `Facet.clause`, `Facet.withClause`: reading and replacing the clause of a facet; the clauses of
  two facets do not meet.
* `Facet.Writes f m`: the build `m` reads and writes no more than the clause of `f`, and its outcome
  does not depend on the query at all.
* `Facet.writes_run`: so does the run of `f`, whether it succeeds or not.
-/

namespace FacetQuery

open Sql

namespace Facet

/-- `Clause f` is what a query holds for `f`. -/
def Clause : Facet → Type
  | .filter => Expr
  | .sort   => List SortKey
  | .page   => Limit

/-- `clause f q` is what `q` holds for `f`. -/
def clause : (f : Facet) → Select → f.Clause
  | .filter, q => q.condition
  | .sort, q   => q.orderBy
  | .page, q   => q.limit

/-- `withClause f c q` is `q` with `c` as its clause for `f`. -/
def withClause : (f : Facet) → f.Clause → Select → Select
  | .filter, c, q => { q with condition := c }
  | .sort, c, q   => { q with orderBy := c }
  | .page, c, q   => { q with limit := c }

@[simp] theorem clause_withClause (f : Facet) (c : f.Clause) (q : Select) :
    f.clause (f.withClause c q) = c := by
  cases f <;> rfl

@[simp] theorem withClause_clause (f : Facet) (q : Select) : f.withClause (f.clause q) q = q := by
  cases f <;> rfl

@[simp] theorem withClause_withClause (f : Facet) (c c' : f.Clause) (q : Select) :
    f.withClause c (f.withClause c' q) = f.withClause c q := by
  cases f <;> rfl

theorem clause_withClause_of_ne {f g : Facet} (h : f ≠ g) (c : g.Clause) (q : Select) :
    f.clause (g.withClause c q) = f.clause q := by
  cases f <;> cases g <;> first | rfl | exact absurd rfl h

theorem withClause_comm {f g : Facet} (h : f ≠ g) (c : f.Clause) (d : g.Clause) (q : Select) :
    f.withClause c (g.withClause d q) = g.withClause d (f.withClause c q) := by
  cases f <;> cases g <;> first | rfl | exact absurd rfl h

/-! ### Builds that keep to one clause -/

variable {α β : Type} {f g : Facet}

/-- `Writes f m` says that `m` always has the same outcome, and changes the clause of `f` by
something that depends on this clause only. -/
def Writes (f : Facet) (m : Build Select α) : Prop :=
  ∃ (x : Except Refusal α) (u : f.Clause → f.Clause),
    ∀ q, m.run q = (x, f.withClause (u (f.clause q)) q)

theorem writes_ofExcept (f : Facet) (x : Except Refusal α) : f.Writes (Build.ofExcept x) :=
  ⟨x, id, fun q => by rw [id, withClause_clause, Build.run_ofExcept]⟩

theorem writes_pure (f : Facet) (a : α) : f.Writes (pure a : Build Select α) :=
  writes_ofExcept f (.ok a)

theorem writes_throw (f : Facet) (e : Refusal) : f.Writes (throw e : Build Select α) :=
  writes_ofExcept f (.error e)

/-- A change of the query writes the clause of `f` if it can be told from this clause alone. -/
theorem writes_modify {h : Select → Select} (u : f.Clause → f.Clause)
    (hu : ∀ q, h q = f.withClause (u (f.clause q)) q) :
    f.Writes (modify h : Build Select Unit) :=
  ⟨.ok (), u, fun q => congrArg (Prod.mk _) (hu q)⟩

/-- One build after another keeps to the clause if both do. What is said first does not depend on
the query, so neither does what comes next. -/
theorem Writes.bind {m : Build Select α} {k : α → Build Select β} (hm : f.Writes m)
    (hk : ∀ a, f.Writes (k a)) : f.Writes (m >>= k) := by
  obtain ⟨x, u, hm⟩ := hm
  rcases x with e | a
  · exact ⟨.error e, u, fun q => by rw [Build.run_bind, hm]⟩
  · obtain ⟨y, w, hk⟩ := hk a
    refine ⟨y, fun c => w (u c), fun q => ?_⟩
    rw [Build.run_bind, hm]
    simp only [hk, clause_withClause, withClause_withClause]

theorem writes_forM {step : α → Build Select Unit} (h : ∀ a, f.Writes (step a)) (xs : List α) :
    f.Writes (xs.forM step) := by
  induction xs with
  | nil          => exact writes_pure f ()
  | cons x xs ih => exact (h x).bind fun _ => ih

namespace Writes

variable {m : Build Select α} {m' : Build Select β}

theorem fst_run_eq (h : f.Writes m) (q q' : Select) : (m.run q).1 = (m.run q').1 := by
  obtain ⟨x, u, h⟩ := h
  rw [h q, h q']

theorem exists_withClause (h : f.Writes m) (q : Select) :
    ∃ c, (m.run q).2 = f.withClause c q := by
  obtain ⟨x, u, h⟩ := h
  exact ⟨u (f.clause q), by rw [h q]⟩

/-- **Two builds that keep to different clauses** leave the same query in either order, whether they
succeed or not. -/
theorem run_comm (hm : f.Writes m) (hm' : g.Writes m') (h : f ≠ g) (q : Select) :
    (m.run (m'.run q).2).2 = (m'.run (m.run q).2).2 := by
  obtain ⟨x, u, hm⟩ := hm
  obtain ⟨y, w, hm'⟩ := hm'
  simp only [hm, hm', clause_withClause_of_ne h, clause_withClause_of_ne h.symm, withClause_comm h]

/-- Builds that keep to the clauses of two facets, and succeed in one order, do so in the other. -/
theorem run_swap (hm : f.Writes m) (hm' : g.Writes m') (h : f ≠ g) {a : α} {b : β}
    {q q₁ q₂ : Select} (h₁ : m.run q = (.ok a, q₁)) (h₂ : m'.run q₁ = (.ok b, q₂)) :
    ∃ q₃, m'.run q = (.ok b, q₃) ∧ m.run q₃ = (.ok a, q₂) := by
  refine ⟨(m'.run q).2, Prod.ext ?_ rfl, Prod.ext ?_ ?_⟩
  · rw [hm'.fst_run_eq q q₁, h₂]
  · rw [hm.fst_run_eq _ q, h₁]
  · rw [run_comm hm hm' h, h₁, h₂]

end Writes

/-! ### Runs -/

variable {v : Validator}

/-- Each call of the backend writes one clause: a condition, a key or the limits. -/
theorem writes_backend_filter (v : Validator) (p : Predicate) :
    Facet.filter.Writes ((Backend.ofDialect v).filter p) := by
  refine (writes_ofExcept _ _).bind fun _ => (writes_ofExcept _ _).bind fun e => ?_
  exact writes_modify (fun c : Expr => if c.isTrue then e else .and c e) fun _ => rfl

theorem writes_backend_sort (v : Validator) (s : SortField) :
    Facet.sort.Writes ((Backend.ofDialect v).sort s) := by
  refine (writes_ofExcept _ _).bind fun _ => ?_
  exact writes_modify (fun c : List SortKey => c ++ [⟨.column s.field, s.order⟩]) fun _ => rfl

theorem writes_backend_page (v : Validator) (p : Page) :
    Facet.page.Writes ((Backend.ofDialect v).page p) := by
  refine (writes_ofExcept _ _).bind fun _ => ?_
  exact writes_modify (fun _ : Limit => ⟨some p.size, some p.offset⟩) fun _ => rfl

/-- **Applying the parameters of a facet** calls the backend for this facet only, and so keeps to
its clause, whatever the parameters are. -/
theorem writes_apply (f : Facet) (v : Validator) (params : Dictionary Json.Value) :
    f.Writes (f.apply (Backend.ofDialect v) params) := by
  cases f with
  | filter =>
      refine writes_forM (fun entry => ?_) params
      cases Filter.ofFlat? entry.1 entry.2 with
      | some p => exact writes_backend_filter v p
      | none   => exact writes_throw _ _
  | sort =>
      refine writes_forM (fun entry => ?_) params
      cases Sort.direction? entry.2 with
      | some order => exact writes_backend_sort v _
      | none       => exact writes_throw _ _
  | page =>
      unfold Facet.apply Paging.apply
      dsimp only
      split
      · exact writes_backend_page v _
      · exact writes_throw _ _

/-- **The run of a facet** keeps to the clause of the facet. Whether it passes is decided by the
request, and never by the query. -/
theorem writes_run (f : Facet) (v : Validator) (r : Request) :
    f.Writes (f.run (Backend.ofDialect v) r) := by
  refine (writes_ofExcept _ _).bind fun _ => ?_
  split
  · exact writes_apply f v _
  · exact writes_pure f ()

end Facet

end FacetQuery
