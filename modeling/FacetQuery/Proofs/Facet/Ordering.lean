import FacetQuery.Backend.Recorder
import FacetQuery.Proofs.Facet.Sort

/-!
# Facet — The sorts that are accepted

A request's sort is read twice, once to check it and once to list it by field, where a field that
comes again would replace the direction of the first.  The check leaves no such sort.

* `Sort.Accepts v fields value fs`: it is one by the fields `fs`, and these may be sorted by.
* `Sort.Orders b r value`: a run sorts once by each of these fields, or not at all;
  `Sort.orders_of_param`: so does any run for a request that has a sort.
-/

namespace FacetQuery.Sort

open Json

/-! ### Checking -/

variable {v : Validator} {fields : Fields} {value : Value} {fs : List SortField} {r : Request}

/-- `Accepts v fields value fs` says that `value` is a sort by the fields `fs`, where requests may
sort by `fields`. -/
structure Accepts (v : Validator) (fields : Fields) (value : Value) (fs : List SortField) :
    Prop where
  /-- Every direction is one. -/
  listed : Lists value (fs.map ofField)
  named : ∀ f ∈ fs, f.field ≠ ""
  permitted : ∀ f ∈ fs, fields.Allows f.field
  distinct : (fs.map (·.field)).Nodup
  supported : fs ≠ [] → v.supports .sort = true

/-- A field with its direction passes the backend's check as soon as it sorts at all. -/
theorem check_ofField_eq_ok_iff {f : SortField} :
    v.check .sort (ofField f).1 (ofField f).2 = .ok () ↔ v.supports .sort = true := by
  rw [Validator.check_eq_ok_iff, and_iff_left]
  simp [ofField, ValueShape.ofOperation, ValueShape.admits, Direction.ofName?_name]

/-- **Fields pass** if each has a name and may be sorted by, and none comes twice. An empty list
passes without asking the backend. -/
theorem checkEntries_map_ofField_eq_ok_iff :
    checkEntries v fields [] (fs.map ofField) = .ok () ↔
      (∀ f ∈ fs, f.field ≠ "") ∧ (∀ f ∈ fs, fields.Allows f.field) ∧
        (fs.map (·.field)).Nodup ∧ (fs ≠ [] → v.supports .sort = true) := by
  rw [checkEntries_eq_ok_iff, map_fst_map_ofField, List.forall_mem_map]
  simp only [check_ofField_eq_ok_iff, List.not_mem_nil, not_false_eq_true, true_and]
  constructor
  · rintro ⟨h, hn⟩
    refine ⟨fun f hf => (h f hf).1, fun f hf => (h f hf).2.1, hn, fun hne => ?_⟩
    obtain ⟨f, hf⟩ := List.exists_mem_of_ne_nil fs hne
    exact (h f hf).2.2
  · rintro ⟨hnamed, hpermitted, hn, hs⟩
    exact ⟨fun f hf => ⟨hnamed f hf, hpermitted f hf, hs (List.ne_nil_of_mem hf)⟩, hn⟩

/-- A sort passes if its entries are fields that may be sorted by. Each must have a direction, so
the entries are those of some fields. -/
theorem validate_eq_ok_iff (hp : r.param? parameter = some value) :
    validate v r = .ok () ↔ ∃ fs, Accepts v r.schema.sort.fields value fs := by
  rw [validate, hp]
  refine bind_eq_ok_iff.trans ⟨?_, ?_⟩
  · rintro ⟨es, he, hes⟩
    -- Every entry that passes has a direction, so the entries are those of some fields.
    obtain ⟨fs, rfl⟩ := exists_map_ofField fun e h =>
      ((checkEntries_eq_ok_iff.mp hes).1 e h).2.2.2
    obtain ⟨hnamed, hpermitted, hn, hs⟩ := checkEntries_map_ofField_eq_ok_iff.mp hes
    exact ⟨fs, lists_iff.mpr he, hnamed, hpermitted, hn, hs⟩
  · rintro ⟨fs, hlisted, hnamed, hpermitted, hn, hs⟩
    exact ⟨_, lists_iff.mp hlisted,
      checkEntries_map_ofField_eq_ok_iff.mpr ⟨hnamed, hpermitted, hn, hs⟩⟩

/-- The fields of a sort are distinct, so listing them by name loses none. -/
theorem Accepts.flat_eq_map (hp : r.param? parameter = some value)
    (h : Accepts v r.schema.sort.fields value fs) : flat r = fs.map ofField := by
  rw [flat, hp]
  simp only [lists_iff.mp h.listed]
  refine Dictionary.ofEntries_of_nodup ?_
  rw [map_fst_map_ofField]
  exact h.distinct

/-! ### Running -/

variable {β : Type} {b : Backend β}

/-- `Orders b r value` says what a run does that sorts by `value`. -/
structure Orders (b : Backend β) (r : Request) (value : Value) : Prop where
  /-- If the backend never fails to sort, the run succeeds exactly if the sort is accepted. -/
  succeeds_iff : (∀ s q, ((b.sort s).run q).1 = .ok ()) → ∀ q,
    ((Facet.sort.run b r).run q).1 = .ok () ↔
      ∃ fs, Accepts b.validator r.schema.sort.fields value fs
  /-- A sort that is accepted makes one call for each field, in order, and nothing else. -/
  calls : ∀ fs, Accepts b.validator r.schema.sort.fields value fs →
    Facet.sort.run b r = fs.forM b.sort
  /-- Any other sort makes no call. -/
  untouched : (∀ fs, ¬ Accepts b.validator r.schema.sort.fields value fs) →
    ∃ e, Facet.sort.run b r = Build.ofExcept (.error e)

/-- A sort that is accepted is run field by field, in its order. -/
theorem run_of_accepts (hon : Facet.sort.isEnabled r.schema = true)
    (hp : r.param? parameter = some value)
    (h : Accepts b.validator r.schema.sort.fields value fs) :
    Facet.sort.run b r = fs.forM b.sort := by
  have hflat : Facet.sort.entries r = fs.map ofField := h.flat_eq_map hp
  rw [Facet.run_of_check hon ((validate_eq_ok_iff hp).mpr ⟨fs, h⟩), hflat, Facet.apply,
    apply_map_ofField]

theorem run_of_not_accepts (hon : Facet.sort.isEnabled r.schema = true)
    (hp : r.param? parameter = some value)
    (h : ∀ fs, ¬ Accepts b.validator r.schema.sort.fields value fs) :
    ∃ e, Facet.sort.run b r = Build.ofExcept (.error e) := by
  rcases hv : validate b.validator r with e | ⟨⟩
  · exact ⟨e, Facet.run_of_check_error hon hv⟩
  · obtain ⟨fs, hfs⟩ := (validate_eq_ok_iff hp).mp hv
    exact absurd hfs (h fs)

/-- **A run for a request with a sort** makes one call for each field in it, or none at all. Which
of the two is decided before the first call. -/
theorem orders_of_param (b : Backend β) (hon : Facet.sort.isEnabled r.schema = true)
    (hp : r.param? parameter = some value) : Orders b r value where
  succeeds_iff hsort q := by
    constructor
    · intro hok
      by_contra hnone
      obtain ⟨e, he⟩ := run_of_not_accepts hon hp (not_exists.mp hnone)
      rw [he] at hok
      cases hok
    · rintro ⟨fs, hfs⟩
      rw [run_of_accepts hon hp hfs, Build.fst_run_forM fun s _ => hsort s]
      exact forM_eq_ok_iff.mpr fun _ _ => rfl
  calls fs hfs := run_of_accepts hon hp hfs
  untouched hnone := run_of_not_accepts hon hp hnone

/-- Sorts by two fields, of which the second begins with a minus sign. -/
def dashed : Request where
  params := [("sort", .string " b ,, --a")]
  schema := Schema.standard

/-- Blanks and empty pieces do not count, and of two minus signs the first means descending. -/
theorem orders_of_param_dashed :
    Facet.sort.isEnabled dashed.schema = true ∧
      dashed.param? parameter = some (.string " b ,, --a") ∧
      ((Facet.sort.run (.recorder .full) dashed).run []
        = (.ok (), [.sort ⟨"b", .asc⟩, .sort ⟨"-a", .desc⟩])) ∧
      Orders (.recorder .full) dashed (.string " b ,, --a") :=
  ⟨rfl, rfl, by decide +kernel, orders_of_param (.recorder .full) rfl rfl⟩

end FacetQuery.Sort
