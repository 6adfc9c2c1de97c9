import FacetQuery.Backend.Recorder
import FacetQuery.Proofs.Facet.Filter
import FacetQuery.Proofs.Facet.Paging
import FacetQuery.Proofs.Facet.Sort

/-!
# Facet — The calls of a facet

Once its parameters have passed, a facet is nothing but a list of calls, the same for every
backend; what the backend makes of them is its own affair.

* `Facet.Calls r f cs`: the calls `cs` are those of `f`, read off the request.
* `Facet.exists_calls`: parameters that pass are applied by these calls, and none is refused before
  it gets to the backend.
-/

namespace FacetQuery

/-- `Calls x c` says that `c` is the filter that an entry asks for: by the entry's own operator, on
its field and with its value. -/
def Filter.Entry.Calls (x : Filter.Entry) (c : BackendCall) : Prop :=
  ∃ op : Operator, op.name = x.name ∧ c = .filter ⟨x.field, op, x.value⟩

namespace Facet

/-- `Calls r f cs` says that `cs` are the calls by which `f` applies the request `r`. -/
inductive Calls (r : Request) : Facet → List BackendCall → Prop where
  /-- One call an entry. -/
  | filter {cs : List BackendCall} :
      List.Forall₂ Filter.Entry.Calls (Filter.asked r) cs → Calls r .filter cs
  /-- One call a listed field, with the direction listed for it. -/
  | sort {fs : List SortField} :
      Sort.flat r = fs.map Sort.ofField → Calls r .sort (fs.map .sort)
  /-- One call, for the rows of the page that is asked for. -/
  | page {n offset : UInt64} : Paging.Asked r n →
      offset.toNat = min ((n.toNat - 1) * r.schema.page.defaultSize.toNat) (UInt64.size - 1) →
      Calls r .page [.page ⟨r.schema.page.defaultSize, n, offset⟩]

variable {v : Validator} {r : Request} {f : Facet}

/-- **The calls of a facet** that passes its check apply it to any backend. So they can be counted
before there is one. -/
theorem exists_calls (hr : r.WellFormed) (h : f.check v r = .ok ()) :
    ∃ cs, f.Calls r cs ∧
      ∀ {β : Type} (b : Backend β), f.apply b (f.entries r) = cs.forM b.call := by
  cases f with
  | filter =>
      obtain ⟨ps, hps, -⟩ := Filter.validate_eq_ok_iff.mp h
      refine ⟨ps.map .filter, .filter ?_, fun b => ?_⟩
      · rw [← Filter.map_entry_of_requested hps, List.forall₂_map_left_iff,
          List.forall₂_map_right_iff, List.forall₂_same]
        exact fun p _ => ⟨p.op, rfl, rfl⟩
      · rw [List.forM_eq_forM, List.forM_map]
        exact Filter.apply_flat b hr hps
  | sort =>
      -- The list has fields with directions only, so no entry is refused on the way.
      obtain ⟨fs, hfs⟩ := Sort.exists_fields_of_validate h
      refine ⟨fs.map .sort, .sort hfs, fun b => ?_⟩
      rw [entries, hfs, List.forM_eq_forM, List.forM_map]
      exact Sort.apply_map_ofField b fs
  | page =>
      obtain ⟨n, hn, hnumber⟩ := Paging.asked_of_validate h
      refine ⟨_, .page hn (Page.toNat_offset _ n), fun b => ?_⟩
      rw [List.forM_eq_forM, List.forM_cons, List.forM_nil, bind_pure_unit]
      exact Paging.apply_flat b hnumber

end Facet

end FacetQuery
