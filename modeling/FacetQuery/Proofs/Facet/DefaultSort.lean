import FacetQuery.Backend.Recorder
import FacetQuery.Proofs.Facet.Sort

/-!
# Facet — The sort of the schema

A request without a sort is sorted as the schema says.  Requests may not sort twice by a field,
while the schema may, whose sort is not checked; and both are listed by field before they are
applied.

* `Sort.Merged fs gs`: listed by field, the sort `fs` becomes `gs`.
* `Sort.merged_run_of_none`: a run without a request's sort sorts once by each element of that list,
  and this is the schema's own just in case it names no field twice.
* `Sort.not_forall_run_eq_default`: it need not be.
-/

namespace FacetQuery.Sort

/-- `Merged fs gs` says that `gs` has every field of `fs` once, where it first comes, with the
direction that it has last. -/
structure Merged (fs gs : List SortField) : Prop where
  fields : gs.map (·.field) = (fs.map (·.field)).eraseDups
  directions : ∀ g ∈ gs, ∃ before after, fs = before ++ g :: after ∧
    ∀ f ∈ after, f.field ≠ g.field

/-- A sort listed by field is merged: a key stands where it first came, with what came last under
it. -/
theorem merged_of_map_eq_ofEntries {fs gs : List SortField}
    (h : gs.map ofField = Dictionary.ofEntries (fs.map ofField)) : Merged fs gs where
  fields := by
    rw [← map_fst_map_ofField gs, ← map_fst_map_ofField fs, h]
    exact Dictionary.keys_ofEntries _
  directions g hg := by
    have hmem : ofField g ∈ Dictionary.ofEntries (fs.map ofField) := h ▸ List.mem_map_of_mem hg
    obtain ⟨before, after, hfs, hafter⟩ := Dictionary.exists_last_of_mem_ofEntries hmem
    obtain ⟨fs₁, fs₂, rfl, -, hfs₂⟩ := List.map_eq_append_iff.mp hfs
    obtain ⟨g', fs₃, rfl, hg', rfl⟩ := List.map_eq_cons_iff.mp hfs₂
    cases ofField_injective hg'
    exact ⟨fs₁, fs₃, rfl, fun f hf => hafter _ (List.mem_map_of_mem hf)⟩

theorem eq_iff_nodup_of_map_eq_ofEntries {fs gs : List SortField}
    (h : gs.map ofField = Dictionary.ofEntries (fs.map ofField)) :
    gs = fs ↔ (fs.map (·.field)).Nodup := by
  rw [← map_fst_map_ofField, ← Dictionary.ofEntries_eq_self_iff, ← h]
  exact ⟨congrArg _, eq_of_map_ofField_eq⟩

variable {r : Request} {β : Type}

/-- **A run for a request without a sort** sorts once by each field of the schema's sort, where the
field first comes and with the direction that it has last; that is once for each element, in order,
just in case no two of them are by one field. -/
theorem merged_run_of_none (hon : Facet.sort.isEnabled r.schema = true)
    (hp : r.param? parameter = none) (b : Backend β) :
    ∃ gs, Merged r.schema.sort.default gs ∧
      (gs = r.schema.sort.default ↔ (r.schema.sort.default.map (·.field)).Nodup) ∧
      Facet.sort.run b r = gs.forM b.sort := by
  have hc : validate b.validator r = .ok () := by rw [validate, hp]
  obtain ⟨gs, hgs⟩ := exists_fields_of_validate hc
  have hentries : gs.map ofField = Dictionary.ofEntries (r.schema.sort.default.map ofField) := by
    rw [← hgs, flat, hp]
  refine ⟨gs, merged_of_map_eq_ofEntries hentries, eq_iff_nodup_of_map_eq_ofEntries hentries, ?_⟩
  rw [Facet.run_of_check hon hc, Facet.apply, Facet.entries, hgs, apply_map_ofField]

/-- The schema sorts by one field twice. -/
def repeating : Request where
  params := []
  schema :=
    { Schema.standard with sort := ⟨true, .any, [⟨"a", .asc⟩, ⟨"b", .asc⟩, ⟨"a", .desc⟩]⟩ }

/-- The field that comes again is sorted by once, in its first place. -/
theorem merged_run_of_none_repeating :
    Facet.sort.isEnabled repeating.schema = true ∧ repeating.param? parameter = none ∧
      ∃ gs, Merged repeating.schema.sort.default gs ∧
        (gs = repeating.schema.sort.default ↔
          (repeating.schema.sort.default.map (·.field)).Nodup) ∧
        Facet.sort.run (.recorder .full) repeating = gs.forM (Backend.recorder .full).sort :=
  ⟨rfl, rfl, merged_run_of_none rfl rfl (.recorder .full)⟩

/-- The first field then takes the direction of the third, which has no call of its own. -/
theorem not_forall_run_eq_default :
    ¬ ∀ r : Request, Facet.sort.isEnabled r.schema = true → r.param? parameter = none →
      ∀ cs, (Facet.sort.run (.recorder .full) r).run [] = (.ok (), cs) →
        cs = r.schema.sort.default.map .sort := by
  intro h
  have hrun : (Facet.sort.run (.recorder .full) repeating).run []
      = (.ok (), [.sort ⟨"a", .desc⟩, .sort ⟨"b", .asc⟩]) := rfl
  exact absurd (h repeating rfl rfl _ hrun) (by decide)

end FacetQuery.Sort
