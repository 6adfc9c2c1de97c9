import FacetQuery.Proofs.Facet.Filter
import FacetQuery.Proofs.Facet.Paging
import FacetQuery.Proofs.Facet.Sort
import FacetQuery.Proofs.Sql.Strings

/-!
# Facet — Requests with other strings in their filter

`Request.mapStrings g r` has other strings in its filter than `r`, and nothing else is different.
A filter is read, checked and applied without a look at them.

* `Filter.requested_mapStrings`, `Filter.asked_mapStrings`: its predicates and its entries.
* `Filter.validate_mapStrings`: it passes or is refused alike.
* `Request.query_mapStrings`: it is turned into the same query, but for the strings in it.
-/

namespace FacetQuery

open Json Sql

/-- `mapStrings g r` is `r` with the strings of its filter changed by `g`. -/
def Request.mapStrings (g : String → String) (r : Request) : Request :=
  { r with params := r.params.map fun m =>
      (m.1, if m.1 = Filter.parameter then m.2.mapStrings g else m.2) }

variable (g : String → String) {r : Request}

namespace Request

theorem param?_mapStrings (r : Request) :
    (r.mapStrings g).param? Filter.parameter
      = (r.param? Filter.parameter).map (Value.mapStrings g) := by
  rw [param?, mapStrings, Dictionary.find?_map fun k v =>
    if k = Filter.parameter then Value.mapStrings g v else v]
  simp only [if_true]
  rfl

theorem param?_mapStrings_of_ne {name : String} (h : name ≠ Filter.parameter) (r : Request) :
    (r.mapStrings g).param? name = r.param? name := by
  rw [param?, mapStrings, Dictionary.find?_map fun k v =>
    if k = Filter.parameter then Value.mapStrings g v else v]
  simp only [if_neg h]
  exact congrFun Option.map_id _

/-- Without a filter there is nothing to change. -/
theorem mapStrings_of_none (h : r.param? Filter.parameter = none) : r.mapStrings g = r := by
  have hparams : (r.params.map fun m =>
      (m.1, if m.1 = Filter.parameter then m.2.mapStrings g else m.2)) = r.params := by
    refine (List.map_congr_left fun m hm => ?_).trans (List.map_id r.params)
    rw [if_neg fun hk => Dictionary.ne_of_find?_eq_none h hm hk]
    rfl
  rw [mapStrings, hparams]

/-- Changing strings repeats no key. -/
theorem WellFormed.mapStrings (hr : r.WellFormed) : (r.mapStrings g).WellFormed where
  params := by
    obtain ⟨hk, hm⟩ := Value.wellFormed_object_iff.mp hr.params
    refine Value.wellFormed_object_iff.mpr ⟨?_, List.forall_mem_map.mpr fun m h => ?_⟩
    · rw [Dictionary.keys, Request.mapStrings, List.map_map]
      exact hk
    · dsimp only
      split
      · exact (hm m h).mapStrings g
      · exact hm m h
  defaultFilter := hr.defaultFilter

end Request

/-! ### Filtering -/

namespace Filter

/-- An operator is looked up by its name, whatever the value is. -/
theorem predicate_mapStrings (field name : String) (v : Value) :
    predicate field name (v.mapStrings g)
      = (predicate field name v).map (Predicate.mapStrings g) := by
  unfold predicate
  split <;> rfl

/-- An object lists operators, and any other value is compared with; a string does not become an
object. -/
theorem condition_mapStrings (field : String) (c : Value) :
    condition field (c.mapStrings g)
      = (condition field c).map (List.map (Predicate.mapStrings g)) := by
  cases c with
  | object operators =>
      rw [Value.mapStrings_object, condition, condition]
      exact mapM_map (fun o => predicate_mapStrings g field o.1 o.2) operators
  | array vs =>
      rw [Value.mapStrings_array]
      simp only [condition, Except.map, List.map_cons, List.map_nil, Predicate.mapStrings,
        Value.mapStrings_array]
  | _        => rfl

theorem predicates_mapStrings (fields : Dictionary Value) :
    predicates (fields.map fun m => (m.1, m.2.mapStrings g))
      = (predicates fields).map (List.map (Predicate.mapStrings g)) := by
  rw [predicates, predicates, mapM_map (fun m => condition_mapStrings g m.1 m.2) fields, bind_map,
    map_bind]
  exact bind_congr fun conditions => congrArg Except.ok List.map_flatten.symm

/-- **The predicates of a request** with other strings are its predicates with other strings, or
both filters are refused for the same entry. -/
theorem requested_mapStrings (h : (r.param? parameter).isSome = true) :
    requested (r.mapStrings g) = (requested r).map (List.map (Predicate.mapStrings g)) := by
  obtain ⟨v, hv⟩ := Option.isSome_iff_exists.mp h
  rw [requested, requested, Request.param?_mapStrings, hv]
  cases v with
  | object fields =>
      simp only [Option.map, Value.mapStrings_object]
      exact predicates_mapStrings g fields
  | array vs => simp only [Option.map, Value.mapStrings_array]; rfl
  | _        => rfl

theorem checkFields_mapStrings (fields : Fields) (ps : List Predicate) :
    checkFields fields (ps.map (Predicate.mapStrings g)) = checkFields fields ps := by
  have hfield : (fun p => !fields.permits p.field) ∘ Predicate.mapStrings g
      = fun p => !fields.permits p.field := rfl
  rw [checkFields, checkFields, List.find?_map, hfield]
  cases ps.find? fun p => !fields.permits p.field <;> rfl

/-- Only the kind of a value is checked, and this is the same for all strings. -/
theorem check_mapStrings (v : Validator) (p : Predicate) :
    v.check (.filter (p.mapStrings g).op) (p.mapStrings g).field (p.mapStrings g).value
      = v.check (.filter p.op) p.field p.value := by
  simp only [Validator.check, Predicate.mapStrings, ValueShape.admits_mapStrings]

/-- **A filter passes or is refused** whatever its strings are, and for the same reason: fields and
operators are no values. -/
theorem validate_mapStrings (v : Validator) (h : (r.param? parameter).isSome = true) :
    validate v (r.mapStrings g) = validate v r := by
  rw [validate, validate, requested_mapStrings g h, bind_map, Request.param?_mapStrings,
    Option.isSome_map]
  refine bind_congr fun ps => ?_
  rw [checkFields_mapStrings, List.forM_eq_forM, List.forM_map]
  simp only [check_mapStrings]
  rfl

/-- `mapStrings g x` is `x` with the strings of its value changed by `g`. -/
def Entry.mapStrings (x : Entry) : Entry := { x with value := x.value.mapStrings g }

/-- The entries of a condition are listed in the same way. -/
theorem entriesAt_mapStrings (field : String) (c : Value) :
    entriesAt field (c.mapStrings g) = (entriesAt field c).map (Entry.mapStrings g) := by
  cases c with
  | object operators =>
      rw [Value.mapStrings_object, entriesAt, entriesAt, List.map_map, List.map_map]
      rfl
  | array vs =>
      rw [Value.mapStrings_array]
      simp only [entriesAt, List.map_cons, List.map_nil, Entry.mapStrings, Value.mapStrings_array]
  | _        => rfl

/-- The entries of a filter with other strings are its entries with other strings. -/
theorem asked_mapStrings (h : (r.param? parameter).isSome = true) :
    asked (r.mapStrings g) = (asked r).map (Entry.mapStrings g) := by
  obtain ⟨v, hv⟩ := Option.isSome_iff_exists.mp h
  rw [asked, asked, Request.param?_mapStrings, hv]
  cases v with
  | object fields =>
      simp only [Option.map, Value.mapStrings_object, entriesOf, List.flatMap_map, List.map_flatMap,
        entriesAt_mapStrings]
  | array vs => simp only [Option.map, Value.mapStrings_array]; rfl
  | _        => rfl

/-- Applying a filter goes in step: the keys of its list are the same, and each value is changed. -/
theorem carries_apply (v : Validator) (hr : r.WellFormed) (h : (r.param? parameter).isSome = true) :
    Build.Carries (Select.relabel id g) (apply (Backend.ofDialect v) (flat r))
      (apply (Backend.ofDialect v) (flat (r.mapStrings g))) := by
  have hps := requested_mapStrings g h
  cases hreq : requested r with
  | error e =>
      rw [hreq] at hps
      rw [flat, flat, hps, hreq]
      exact Build.carries_pure ()
  | ok ps =>
      rw [hreq] at hps
      rw [apply_flat _ hr hreq, apply_flat _ (hr.mapStrings g) hps, List.forM_eq_forM,
        List.forM_map]
      exact Build.Carries.forM (Backend.carries_filter g v) ps

end Filter

/-! ### Whole requests -/

theorem Sort.carries_apply (v : Validator) (params : Dictionary Value) :
    Build.Carries (Select.relabel id g) (apply (Backend.ofDialect v) params)
      (apply (Backend.ofDialect v) params) := by
  refine Build.Carries.forM (fun x => ?_) params
  split
  · exact Backend.carries_sort g v _
  · exact Build.carries_throw _

theorem Paging.carries_apply (v : Validator) (params : Dictionary Value) :
    Build.Carries (Select.relabel id g) (apply (Backend.ofDialect v) params)
      (apply (Backend.ofDialect v) params) := by
  unfold apply
  dsimp only
  split
  · exact Backend.carries_page g v _
  · exact Build.carries_throw _

namespace Facet

variable (v : Validator)

/-- No facet checks more of the filter than its form. -/
theorem check_mapStrings (h : (r.param? Filter.parameter).isSome = true) (f : Facet) :
    f.check v (r.mapStrings g) = f.check v r := by
  cases f with
  | filter => exact Filter.validate_mapStrings g v h
  | sort =>
      rw [check, check, Sort.validate, Sort.validate,
        Request.param?_mapStrings_of_ne g (by decide)]
      rfl
  | page =>
      rw [check, check, Paging.validate, Paging.validate,
        Request.param?_mapStrings_of_ne g (by decide)]

/-- Every facet is applied in step, for only the filter has other entries, and those are changed as
the query is. -/
theorem carries_apply_entries (hr : r.WellFormed) (h : (r.param? Filter.parameter).isSome = true)
    (f : Facet) : Build.Carries (Select.relabel id g) (f.apply (Backend.ofDialect v) (f.entries r))
      (f.apply (Backend.ofDialect v) (f.entries (r.mapStrings g))) := by
  cases f with
  | filter => exact Filter.carries_apply g v hr h
  | sort =>
      have hflat : Sort.flat (r.mapStrings g) = Sort.flat r := by
        rw [Sort.flat, Sort.flat, Request.param?_mapStrings_of_ne g (by decide)]
        rfl
      rw [entries, entries, hflat]
      exact Sort.carries_apply g v _
  | page =>
      have hflat : Paging.flat (r.mapStrings g) = Paging.flat r := by
        rw [Paging.flat, Paging.flat, Paging.number, Paging.number,
          Request.param?_mapStrings_of_ne g (by decide)]
        rfl
      rw [entries, entries, hflat]
      exact Paging.carries_apply g v _

/-- **A run goes in step**: it refuses both requests, or applies both. What has been built before is
carried along. -/
theorem carries_run (hr : r.WellFormed) (h : (r.param? Filter.parameter).isSome = true)
    (f : Facet) : Build.Carries (Select.relabel id g) (f.run (Backend.ofDialect v) r)
      (f.run (Backend.ofDialect v) (r.mapStrings g)) := by
  have hcheck : f.validate v (r.mapStrings g) = f.validate v r := by
    rw [validate, validate, check_mapStrings g v h]
    rfl
  have hvalidator : (Backend.ofDialect v).validator = v := rfl
  have hschema : (r.mapStrings g).schema = r.schema := rfl
  unfold run flat
  rw [hvalidator, hcheck, hschema]
  refine (Build.carries_ofExcept _).bind fun _ => ?_
  split
  · exact carries_apply_entries g v hr h f
  · exact Build.carries_pure ()

end Facet

namespace Request

/-- **The query of a request with other strings in its filter** is its query with other strings,
or it is refused for the same reason. -/
theorem query_mapStrings (v : Validator) (hr : r.WellFormed)
    (h : (r.param? Filter.parameter).isSome = true) (q : Select) :
    (r.mapStrings g).query (Backend.ofDialect v) (q.relabel id g)
      = (r.query (Backend.ofDialect v) q).map (Select.relabel id g) := by
  have hbuild := (Facet.carries_run g v hr h .filter).bind fun _ =>
    (Facet.carries_run g v hr h .sort).bind fun _ => Facet.carries_run g v hr h .page
  have hq := hbuild q
  unfold query build
  rw [hq]
  rcases Build.run _ q with ⟨e | ⟨⟩, q'⟩ <;> rfl

end Request

end FacetQuery
