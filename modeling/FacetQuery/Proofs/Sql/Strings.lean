import FacetQuery.Proofs.InStep
import FacetQuery.Proofs.Json.Strings
import FacetQuery.Proofs.Sql.Backend
import FacetQuery.Proofs.Sql.Relabel

/-!
# Sql — The backend does not look into strings

A predicate with other strings asks for the same condition with other strings, and every call of
the SQL backend carries such a change through.

* `Predicate.toExpr_mapStrings`: conditions of predicates with other strings.
* `Backend.carries_filter`, `Backend.carries_sort`, `Backend.carries_page`: the calls.
-/

namespace FacetQuery

open Sql

variable (g : String → String)

/-! ### Conditions -/

/-- A scalar with another string is the literal with that string, and a collection is no literal
with either. -/
theorem Sql.Literal.ofValue_mapStrings (v : Json.Value) :
    Literal.ofValue (v.mapStrings g) = (Literal.ofValue v).map (Literal.relabel g) := by
  cases v with
  | number n =>
      cases n with
      | whole i  =>
          simp only [Json.Value.mapStrings, Literal.ofValue, Literal.ofNumber]
          split <;> rfl
      | real x _ => rfl
  | array vs  => rw [Json.Value.mapStrings_array]; rfl
  | object ms => rw [Json.Value.mapStrings_object]; rfl
  | _         => rfl

theorem Sql.Expr.ofValue_mapStrings (v : Json.Value) :
    Expr.ofValue (v.mapStrings g) = (Expr.ofValue v).map (Expr.relabel id g) := by
  rw [Expr.ofValue, Expr.ofValue, Literal.ofValue_mapStrings]
  cases Literal.ofValue v <;> rfl

namespace Predicate

/-- `mapStrings g p` is `p` with the strings of its value changed by `g`. -/
def mapStrings (p : Predicate) : Predicate := { p with value := p.value.mapStrings g }

/-- Changing strings neither turns an array into something else nor the other way round. -/
theorem items_mapStrings (p : Predicate) :
    (p.mapStrings g).items = p.items.map (List.map (Json.Value.mapStrings g)) := by
  obtain ⟨field, op, v⟩ := p
  cases v with
  | array vs  => simp only [mapStrings, items, Json.Value.mapStrings_array]; rfl
  | object ms => simp only [mapStrings, items, Json.Value.mapStrings_object]; rfl
  | _         => rfl

/-- A comparison with another string on its right is the comparison with the string changed, or
fails for both. -/
theorem comparison_mapStrings (p : Predicate) (c : Comparison) :
    (p.mapStrings g).comparison c = (p.comparison c).map (Expr.relabel id g) := by
  simp only [comparison, mapStrings, Expr.ofValue_mapStrings, bind_map, map_bind]
  rfl

/-- A membership list is changed item by item; whether all items are scalars does not depend on what
the strings are. -/
theorem membership_mapStrings (p : Predicate) (negated : Bool) :
    (p.mapStrings g).membership negated = (p.membership negated).map (Expr.relabel id g) := by
  simp only [membership, items_mapStrings, bind_map, map_bind]
  refine bind_congr fun items => ?_
  cases items with
  | nil => cases negated <;> rfl
  | cons v vs =>
      have hmap := mapM_map (Expr.ofValue_mapStrings g) (v :: vs)
      rw [List.map_cons] at hmap
      simp only [List.map_cons, hmap, bind_map, map_bind]
      refine bind_congr fun es => ?_
      rw [← Expr.relabelEach_eq_map id g es]
      rfl

theorem range_mapStrings (p : Predicate) (negated : Bool) :
    (p.mapStrings g).range negated = (p.range negated).map (Expr.relabel id g) := by
  simp only [range, items_mapStrings, bind_map, map_bind]
  refine bind_congr fun items => ?_
  rcases items with _ | ⟨low, _ | ⟨high, more⟩⟩
  · rfl
  · rfl
  · simp only [List.map_cons, Expr.ofValue_mapStrings, bind_map, map_bind]
    rfl

/-- **The condition of a predicate with other strings** is its condition with other strings, or
there is none for either and for the same reason. -/
theorem toExpr_mapStrings (p : Predicate) :
    (p.mapStrings g).toExpr = p.toExpr.map (Expr.relabel id g) := by
  obtain ⟨field, op, v⟩ := p
  rcases operator_cases op with ⟨c, rfl⟩ | ⟨negated, rfl⟩ | ⟨negated, rfl⟩ | ⟨negated, rfl⟩
  · rw [toExpr_comparison, ← comparison_mapStrings]
    exact toExpr_comparison c
  · rw [toExpr_isNull]
    exact toExpr_isNull negated
  · rw [toExpr_membership, ← membership_mapStrings]
    exact toExpr_membership negated
  · rw [toExpr_range, ← range_mapStrings]
    exact toExpr_range negated

end Predicate

/-! ### Calls -/

/-- A change of names and strings goes through one more condition. The condition `true` counts as
none before and after. -/
theorem Sql.Select.relabel_filter (f : String → String) (q : Select) (e : Expr) :
    (q.relabel f g).filter (e.relabel f g) = (q.filter e).relabel f g := by
  simp only [filter, relabel, Expr.isTrue_relabel]
  split <;> rfl

theorem Sql.Select.relabel_orderedBy (f : String → String) (q : Select) (key : SortKey) :
    (q.relabel f g).orderedBy (key.relabel f g) = (q.orderedBy key).relabel f g := by
  simp [orderedBy, relabel]

namespace Backend

open Build

variable (v : Validator)

/-- **A call of `filter`** on a changed query, with a changed predicate, answers with the changed
query, and fails where it failed before. -/
theorem carries_filter (p : Predicate) :
    Carries (Select.relabel id g) ((ofDialect v).filter p)
      ((ofDialect v).filter (p.mapStrings g)) := by
  refine (carries_ofExcept _).bind fun _ => ?_
  rw [Predicate.toExpr_mapStrings, ofExcept_map_bind]
  exact (carries_ofExcept _).bind fun e => carries_modify fun q => q.relabel_filter g id e

/-- A call of `sort` has no string in it, so it carries any change of strings through. -/
theorem carries_sort (s : SortField) :
    Carries (Select.relabel id g) ((ofDialect v).sort s) ((ofDialect v).sort s) :=
  (carries_ofExcept _).bind fun _ => carries_modify fun q =>
    q.relabel_orderedBy g id ⟨.column s.field, s.order⟩

theorem carries_page (p : Page) :
    Carries (Select.relabel id g) ((ofDialect v).page p) ((ofDialect v).page p) :=
  (carries_ofExcept _).bind fun _ => carries_modify fun _ => rfl

end Backend

end FacetQuery
