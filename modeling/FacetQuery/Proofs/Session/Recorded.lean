import FacetQuery.Proofs.Facet.Calls
import FacetQuery.Proofs.Session.Visits

/-!
# Session — What a session records

A backend that refuses nothing shows what sessions do to it: the calls of the runs that pass, in
order, and no others.

* `Session.Records v r s cs`: what a single visit adds to the record.
* `Session.outcome v r s`: what the run of a visit says.
* `Session.run_recorder`: the record of a whole session, and what its runs say.
-/

namespace FacetQuery.Session

variable {v : Validator} {r : Request}

/-- `Records v r s cs` says that the visit `s` adds the calls `cs` to a record. -/
inductive Records (v : Validator) (r : Request) : Step → List BackendCall → Prop where
  /-- A run that passes makes the calls of its facet. -/
  | passed {f : Facet} {calls : List Call} {cs : List BackendCall} :
      f.isEnabled r.schema = true → f.validate v r = .ok () → f.Calls r cs →
      Records v r ⟨f, calls, true⟩ cs
  /-- A run that does not pass makes none. -/
  | refused {f : Facet} {calls : List Call} {e : Refusal} :
      f.validate v r = .error e → Records v r ⟨f, calls, true⟩ []
  /-- Nor does the run of a facet that is switched off. -/
  | disabled {f : Facet} {calls : List Call} :
      f.isEnabled r.schema = false → Records v r ⟨f, calls, true⟩ []
  /-- Nor does a visit without a run, whatever it asks. -/
  | asked {f : Facet} {calls : List Call} : Records v r ⟨f, calls, false⟩ []

/-- `outcome v r s` is what the check of the facet says, if `s` has a run. -/
def outcome (v : Validator) (r : Request) (s : Step) : Option (Except Refusal Unit) :=
  if s.runs then some (s.facet.validate v r) else none

theorem run_forM_recorder (v : Validator) (cs before : List BackendCall) :
    (cs.forM (Backend.recorder v).call).run before = (.ok (), before ++ cs) := by
  rw [Build.run_forM_eq_ok (Backend.run_call_recorder v), List.foldl_append_eq_append,
    ← List.flatMap_def, List.flatMap_singleton']

/-- One run: it says what the check of its facet says, so nothing is refused after that, and the
calls are those of the facet's list. -/
theorem run_facet_recorder (hr : r.WellFormed) (v : Validator) (f : Facet) (calls : List Call)
    (before : List BackendCall) :
    ∃ cs, Records v r ⟨f, calls, true⟩ cs ∧
      (f.run (.recorder v) r).run before = (f.validate v r, before ++ cs) := by
  have hvalidator : (Backend.recorder v).validator = v := rfl
  have hrun := Facet.run_eq f (.recorder v) r before
  rw [hvalidator] at hrun
  rcases hv : f.validate v r with e | ⟨⟩
  · rw [hv] at hrun
    exact ⟨[], .refused hv, by rw [hrun, List.append_nil]⟩
  · rw [hv] at hrun
    cases hon : f.isEnabled r.schema with
    | false =>
        refine ⟨[], .disabled hon, ?_⟩
        simp only [hrun, hon, Bool.false_eq_true, if_false, List.append_nil]
    | true =>
        -- What has passed is a list of calls, and the recorder refuses none of them.
        have hc : f.check v r = .ok () := Facet.validate_of_isEnabled hon ▸ hv
        obtain ⟨cs, hcs, happly⟩ := Facet.exists_calls hr hc
        refine ⟨cs, .passed hon hv hcs, ?_⟩
        simp only [hrun, hon, if_true, happly, run_forM_recorder]

/-- **One visit** adds the calls of its run, if it has one that passes, and else nothing. What it
says is what the check of its facet says. -/
theorem take_recorder (hr : r.WellFormed) (v : Validator) (s : Step) (before : List BackendCall) :
    ∃ cs, Records v r s cs ∧
      take (.recorder v) r s before = (outcome v r s, before ++ cs) := by
  obtain ⟨f, calls, runs⟩ := s
  cases runs with
  | false => exact ⟨[], .asked, by rw [List.append_nil]; rfl⟩
  | true =>
      obtain ⟨cs, hcs, hrun⟩ := run_facet_recorder hr v f calls before
      refine ⟨cs, hcs, ?_⟩
      have hvisit := Visit.run_calls f (.recorder v) r calls
      simp only [take, if_true, hvisit, hrun]
      rfl

/-- Filters by a field with a colon in its name; the page is none, and there is no sorting. -/
def mixed : Request where
  params :=
    [("filter", .object [("a:b", .object [("in", .array [.ofUInt64 1]), ("is not", .null)])]),
     ("page", .string "two")]
  schema := { Schema.standard with sort := ⟨false, .any, []⟩ }

/-- Visits all facets, the filter three times, once without a run. -/
def mixedSteps : List Step :=
  [⟨.filter, [.validate, .flat], true⟩, ⟨.sort, [], true⟩, ⟨.page, [.validate], true⟩,
   ⟨.filter, [.validate], false⟩, ⟨.filter, [], true⟩]

theorem wellFormed_mixed : mixed.WellFormed where
  params := by simp [mixed, Dictionary.keys, Json.Value.ofUInt64]
  defaultFilter := by simp [mixed, Schema.standard, FilterSchema.standard, Dictionary.keys]

/-- **The record of a session** grows, visit by visit, by the calls of the runs that pass.  Every
run says what the check of its facet says. -/
theorem run_recorder (hr : r.WellFormed) (v : Validator) (steps : List Step)
    (before : List BackendCall) :
    ∃ css, List.Forall₂ (Records v r) steps css ∧
      run (.recorder v) r steps before = (steps.map (outcome v r), before ++ css.flatten) := by
  induction steps generalizing before with
  | nil => exact ⟨[], .nil, by rw [List.flatten_nil, List.append_nil]; rfl⟩
  | cons s steps ih =>
      obtain ⟨cs, hcs, hs⟩ := take_recorder hr v s before
      -- The visits behind this one, from the record as it is now.
      obtain ⟨css, hcss, hsteps⟩ := ih (before ++ cs)
      refine ⟨cs :: css, .cons hcs hcss, ?_⟩
      rw [run, hs]
      simp only [hsteps, List.map_cons, List.flatten_cons, List.append_assoc]

/-- The filter is run twice, and the visit without a run leaves no trace. -/
theorem run_recorder_mixed :
    mixed.WellFormed ∧
      (run (.recorder .full) mixed mixedSteps []).2 =
        [.filter ⟨"a:b", .isIn, .array [.ofUInt64 1]⟩, .filter ⟨"a:b", .isNotNull, .null⟩,
         .filter ⟨"a:b", .isIn, .array [.ofUInt64 1]⟩, .filter ⟨"a:b", .isNotNull, .null⟩] ∧
      ∃ css, List.Forall₂ (Records .full mixed) mixedSteps css ∧
        run (.recorder .full) mixed mixedSteps []
          = (mixedSteps.map (outcome .full mixed), [] ++ css.flatten) :=
  ⟨wellFormed_mixed, by decide +kernel, run_recorder wellFormed_mixed .full mixedSteps []⟩

end FacetQuery.Session
