import FacetQuery.Proofs.Sql.Predicates

/-!
# Sql — What the calls of the backend do

* `Backend.run_filter_ok_iff`, `Backend.run_sort_ok_iff`, `Backend.run_page_ok_iff`: when a call
  of the SQL backend succeeds, and which query it leaves then.
* `Backend.run_filter_error`, `Backend.run_sort_ne_error`, `Backend.run_page_ne_error`: what a call
  that fails says, where the operation is known; `Backend.run_sort_sqlWith` and
  `Backend.run_page_sqlWith`: every dialect sorts and pages.
* `Select.foldl_filter`, `Select.foldl_orderedBy`: the query after many of them;
  `Select.foldl_filter_eq_self_iff`: none of their conditions vanishes.
-/

namespace FacetQuery

open Sql

theorem Validator.require_eq_ok_iff {v : Validator} {o : Operation} :
    v.require o = .ok () ↔ v.supports o = true := by
  unfold require
  split <;> simp [*]

theorem Validator.supports_ofOperators_sort (ops : List Operator) :
    (ofOperators ops).supports .sort = true := by
  simp [supports, ofOperators]

theorem Validator.supports_ofOperators_page (ops : List Operator) :
    (ofOperators ops).supports .page = true := by
  simp [supports, ofOperators]

namespace Backend

variable {v : Validator} {q q' : Select}

/-- **When a call of `filter` succeeds**: the operator is known and the predicate asks for a
condition, which is then the only change. -/
theorem run_filter_ok_iff {p : Predicate} :
    ((ofDialect v).filter p).run q = (.ok (), q') ↔
      v.supports (.filter p.op) = true ∧ ∃ e, p.Asks e ∧ q' = q.filter e := by
  have hf : (ofDialect v).filter p = (Build.ofExcept (v.require (.filter p.op)) >>= fun _ =>
      Build.ofExcept p.toExpr >>= fun e => modify (·.filter e)) := rfl
  rw [hf]
  simp only [Build.run_bind_ok, Build.run_ofExcept_ok, Build.run_modify_ok,
    Predicate.toExpr_eq_ok_iff]
  constructor
  · rintro ⟨⟨⟩, q₁, ⟨hv, rfl⟩, e, q₂, ⟨he, rfl⟩, rfl⟩
    exact ⟨Validator.require_eq_ok_iff.mp hv, e, he, rfl⟩
  · rintro ⟨hv, e, he, rfl⟩
    exact ⟨(), q, ⟨Validator.require_eq_ok_iff.mpr hv, rfl⟩, e, q, ⟨he, rfl⟩, rfl⟩

/-- A call that only asks whether the operation is known, and then changes the query. -/
theorem run_require_modify_ok_iff {o : Operation} {f : Select → Select} :
    (Build.ofExcept (v.require o) >>= fun _ => modify f : Build Select Unit).run q =
      (.ok (), q') ↔ v.supports o = true ∧ q' = f q := by
  simp only [Build.run_bind_ok, Build.run_ofExcept_ok, Build.run_modify_ok]
  constructor
  · rintro ⟨⟨⟩, q₁, ⟨hv, rfl⟩, rfl⟩
    exact ⟨Validator.require_eq_ok_iff.mp hv, rfl⟩
  · rintro ⟨hv, rfl⟩
    exact ⟨(), q, ⟨Validator.require_eq_ok_iff.mpr hv, rfl⟩, rfl⟩

/-- **When a call of `sort` succeeds**: sorting is known, and one key comes behind the others. -/
theorem run_sort_ok_iff {s : SortField} :
    ((ofDialect v).sort s).run q = (.ok (), q') ↔
      v.supports .sort = true ∧ q' = q.orderedBy ⟨.column s.field, s.order⟩ :=
  run_require_modify_ok_iff

/-- **When a call of `page` succeeds**: paging is known, and the limits are those of the page. -/
theorem run_page_ok_iff {p : Page} :
    ((ofDialect v).page p).run q = (.ok (), q') ↔
      v.supports .page = true ∧ q' = q.limitedTo ⟨some p.size, some p.offset⟩ :=
  run_require_modify_ok_iff

/-- A call of a known operator fails only where its predicate has no condition, and the query stays
as it was. -/
theorem run_filter_error {p : Predicate} {e : Refusal} (hv : v.supports (.filter p.op) = true)
    (h : ((ofDialect v).filter p).run q = (.error e, q')) : q' = q ∧ p.toExpr = .error e := by
  have hf : (ofDialect v).filter p = (Build.ofExcept (v.require (.filter p.op)) >>= fun _ =>
      Build.ofExcept p.toExpr >>= fun e => modify (·.filter e)) := rfl
  rw [hf, Validator.require_eq_ok_iff.mpr hv, Build.run_bind, Build.run_ofExcept] at h
  simp only [Build.run_bind, Build.run_ofExcept] at h
  rcases hp : p.toExpr with e' | condition
  · rw [hp] at h
    cases h
    exact ⟨rfl, rfl⟩
  · rw [hp] at h
    cases congrArg Prod.fst h

theorem run_sort_ne_error {s : SortField} {e : Refusal} (hv : v.supports .sort = true) :
    ((ofDialect v).sort s).run q ≠ (.error e, q') := by
  rw [run_sort_ok_iff.mpr ⟨hv, rfl⟩]
  exact fun h => nomatch congrArg Prod.fst h

theorem run_page_ne_error {p : Page} {e : Refusal} (hv : v.supports .page = true) :
    ((ofDialect v).page p).run q ≠ (.error e, q') := by
  rw [run_page_ok_iff.mpr ⟨hv, rfl⟩]
  exact fun h => nomatch congrArg Prod.fst h

theorem run_sort_sqlWith (ops : List Operator) (s : SortField) (q : Select) :
    ((sqlWith ops).sort s).run q = (.ok (), q.orderedBy ⟨.column s.field, s.order⟩) :=
  run_sort_ok_iff.mpr ⟨Validator.supports_ofOperators_sort ops, rfl⟩

theorem run_page_sqlWith (ops : List Operator) (p : Page) (q : Select) :
    ((sqlWith ops).page p).run q = (.ok (), q.limitedTo ⟨some p.size, some p.offset⟩) :=
  run_page_ok_iff.mpr ⟨Validator.supports_ofOperators_page ops, rfl⟩

end Backend

/-! ### Many calls -/

namespace Sql.Select

/-- A query that has a condition gets the others behind it. The condition that is there must not be
`true`, which the first call would replace. -/
theorem foldl_filter_of_isTrue_eq_false {q : Select} (hq : q.condition.isTrue = false)
    (es : List Expr) :
    es.foldl filter q = { q with condition := es.foldl .and q.condition } := by
  induction es generalizing q with
  | nil => rfl
  | cons e es ih =>
      have hf : q.filter e = { q with condition := .and q.condition e } := by
        simp [filter, hq]
      rw [List.foldl_cons, hf, ih rfl, List.foldl_cons]

/-- Filtering by one condition after another, none of them `true`, joins them all, the first ones
innermost. A query without a condition takes the first as it is. -/
theorem foldl_filter {q : Select} (hq : q.condition.isTrue = true) {es : List Expr}
    (hes : ∀ e ∈ es, e.isTrue = false) :
    es.foldl filter q = { q with condition := .all es } := by
  cases es with
  | nil =>
      obtain ⟨columns, source, condition, orderBy, limit⟩ := q
      cases Expr.isTrue_iff.mp hq
      rfl
  | cons e es =>
      have hf : q.filter e = { q with condition := e } := by simp [filter, hq]
      rw [List.foldl_cons, hf, foldl_filter_of_isTrue_eq_false (hes e List.mem_cons_self)]
      rfl

/-- Conditions that ask for something do not vanish in a query: it is unchanged only if there are
none. -/
theorem foldl_filter_eq_self_iff {q : Select} {es : List Expr}
    (hes : ∀ e ∈ es, e.isTrue = false) : es.foldl filter q = q ↔ es = [] := by
  constructor
  · intro h
    by_contra hne
    cases hq : q.condition.isTrue with
    | false =>
        rw [foldl_filter_of_isTrue_eq_false hq] at h
        exact Expr.foldl_and_ne_self hne _ (congrArg condition h)
    | true =>
        rw [foldl_filter hq hes] at h
        obtain ⟨e, es, rfl⟩ := List.exists_cons_of_ne_nil hne
        have he : es.foldl .and e = q.condition := congrArg condition h
        have hfalse := Expr.isTrue_foldl_and es (hes e List.mem_cons_self)
        rw [he, hq] at hfalse
        cases hfalse
  · rintro rfl
    rfl

/-- Keys are added behind those that are there, in the order of the calls. -/
theorem foldl_orderedBy (q : Select) (keys : List SortKey) :
    keys.foldl orderedBy q = { q with orderBy := q.orderBy ++ keys } := by
  induction keys generalizing q with
  | nil => rw [List.append_nil]; rfl
  | cons key keys ih =>
      rw [List.foldl_cons, ih, orderedBy, List.append_assoc]
      rfl

end Sql.Select

end FacetQuery
