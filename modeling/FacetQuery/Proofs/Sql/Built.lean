import FacetQuery.Backend.Recorder
import FacetQuery.Proofs.Sql.Backend

/-!
# Sql — The queries that a backend builds

Whatever calls a backend takes, the conditions of its queries stay flat: tests of single columns
against literal values, joined by `and`.

* `Test`: such a condition as data; `Predicate.Asks.exists_test`: predicates ask for nothing else.
* `Built table q`: successful calls lead from the table to the query `q`, in any dialects.
* `Outline`: what such a query is made of; `Built.exists_outline`: every one has an outline.
-/

namespace FacetQuery

namespace Sql

/-! ### Tests -/

/-- What is asked of a column. -/
inductive Check where
  | compare (op : Comparison) (value : Literal)
  | isNull (negated : Bool)
  | member (negated : Bool) (first : Literal) (more : List Literal)
  | between (negated : Bool) (low high : Literal)

/-- `toExpr name c` asks `c` of the column `name`. -/
def Check.toExpr (name : String) : Check → Expr
  | .compare op value          => .compare (.column name) op (.literal value)
  | .isNull negated            => .isNull (.column name) negated
  | .member negated first more => .member (.column name) negated ((first :: more).map .literal)
  | .between negated low high  =>
      .between (.column name) negated (.literal low) (.literal high)

/-- A condition without `and`. -/
inductive Test where
  | constant (holds : Bool)
  | column (name : String) (check : Check)

namespace Test

/-- `toExpr t` is the condition itself. -/
def toExpr : Test → Expr
  | constant holds    => .constant holds
  | column name check => check.toExpr name

/-- No test is the literal `true`, which would vanish from a condition. -/
@[simp] theorem isTrue_toExpr (t : Test) : t.toExpr.isTrue = false := by
  cases t with
  | constant holds    => rfl
  | column name check => cases check <;> rfl

theorem isTrue_of_mem_map_toExpr {ts : List Test} : ∀ e ∈ ts.map toExpr, e.isTrue = false := by
  simp

end Test

end Sql

open Sql

/-- A predicate asks for a single test, of its own column, or for a constant if it has an empty
list. -/
theorem Predicate.Asks.exists_test {p : Predicate} {e : Expr} (h : p.Asks e) :
    ∃ t : Test, e = t.toExpr := by
  cases h with
  | compare c _           => exact ⟨.column _ (.compare c _), rfl⟩
  | isNull negated        => exact ⟨.column _ (.isNull negated), rfl⟩
  | memberOfNone negated  => exact ⟨.constant negated, rfl⟩
  | between negated _ _   => exact ⟨.column _ (.between negated _ _), rfl⟩
  | member negated hne hls =>
      cases hls with
      | nil      => exact absurd rfl hne
      | cons _ _ => exact ⟨.column _ (.member negated _ _), rfl⟩

namespace Sql

/-- A condition behind others that ask for something is joined to them, or stands alone. -/
theorem Expr.all_concat {es : List Expr} (hes : ∀ e ∈ es, e.isTrue = false) (e : Expr) :
    all (es ++ [e]) = if (all es).isTrue then e else .and (all es) e := by
  cases es with
  | nil        => rfl
  | cons e' es =>
      have hall : (all (e' :: es)).isTrue = false := isTrue_foldl_and es (hes e' List.mem_cons_self)
      rw [hall, if_neg Bool.false_ne_true, List.cons_append]
      exact List.foldl_concat ..

/-! ### Outlines -/

/-- What a query is made of that a backend has built. -/
structure Outline where
  table : String
  tests : List Test
  keys : List SortField
  /-- How many rows, and how many to skip first. -/
  rows : Option (UInt64 × UInt64)

namespace Outline

/-- `select o` is the query made of `o`. -/
def select (o : Outline) : Select where
  columns := none
  source := some ⟨none, o.table⟩
  condition := .all (o.tests.map Test.toExpr)
  orderBy := o.keys.map fun f => ⟨.column f.field, f.order⟩
  limit := ⟨o.rows.map Prod.fst, o.rows.map Prod.snd⟩

theorem filter_select (o : Outline) (t : Test) :
    o.select.filter t.toExpr = select { o with tests := o.tests ++ [t] } := by
  rw [select, select, Select.filter, List.map_append, List.map_singleton,
    Expr.all_concat Test.isTrue_of_mem_map_toExpr]

theorem orderedBy_select (o : Outline) (f : SortField) :
    o.select.orderedBy ⟨.column f.field, f.order⟩ = select { o with keys := o.keys ++ [f] } := by
  simp [select, Select.orderedBy]

end Outline

/-- `Built table q` says that `q` is what successful calls make of everything from `table`.  Each
call may be one of another dialect. -/
inductive Built (table : String) : Select → Prop where
  | start : Built table (.ofTable table)
  | call {q q' : Select} (v : Validator) (c : BackendCall) :
      Built table q → ((Backend.ofDialect v).call c).run q = (.ok (), q') → Built table q'

/-- One call adds a test or a key, or chooses the rows. What it makes of a query with an outline has
one again. -/
theorem Outline.exists_of_call {o : Outline} {v : Validator} {c : BackendCall} {q : Select}
    (h : ((Backend.ofDialect v).call c).run o.select = (.ok (), q)) :
    ∃ o' : Outline, o'.table = o.table ∧ q = o'.select := by
  cases c with
  | filter p =>
      obtain ⟨-, e, he, rfl⟩ := Backend.run_filter_ok_iff.mp h
      obtain ⟨t, rfl⟩ := he.exists_test
      exact ⟨{ o with tests := o.tests ++ [t] }, rfl, o.filter_select t⟩
  | sort f =>
      obtain ⟨-, rfl⟩ := Backend.run_sort_ok_iff.mp h
      exact ⟨{ o with keys := o.keys ++ [f] }, rfl, o.orderedBy_select f⟩
  | page p =>
      obtain ⟨-, rfl⟩ := Backend.run_page_ok_iff.mp h
      exact ⟨{ o with rows := some (p.size, p.offset) }, rfl, rfl⟩

/-- **A query that is built** has an outline. Induction on the calls, each of which adds to the
outline that is there. -/
theorem Built.exists_outline {table : String} {q : Select} (h : Built table q) :
    ∃ o : Outline, o.table = table ∧ q = o.select := by
  induction h with
  | start => exact ⟨⟨table, [], [], none⟩, rfl, rfl⟩
  | call v c _ hrun ih =>
      obtain ⟨o, rfl, rfl⟩ := ih
      exact Outline.exists_of_call hrun

end Sql

end FacetQuery
