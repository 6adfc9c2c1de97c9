import FacetQuery.Proofs.Query.Asked
import FacetQuery.Proofs.Session.Visits

/-!
# Session — What a failed run leaves

Over SQL, parameters that do not pass leave the query under construction as it was.  A filter that
passes may still hold an entry that SQL cannot express; it is applied entry by entry, so the
conditions of the entries before that one stay.  Nothing else is ever left behind.

* `Filter.Entry.Refused`: an entry that SQL cannot express.
* `Session.Leaves`: what a failed run may leave, and when that is everything as it was.
* `Session.leaves_of_run`: any failed run, of any facet, from any query on.
-/

namespace FacetQuery

open Json Sql

/-- `Refused x what` says that an entry of a filter has no condition. -/
def Filter.Entry.Refused (x : Filter.Entry) (what : Inexpressible) : Prop :=
  ∃ op : Operator, op.name = x.name ∧
    Predicate.toExpr ⟨x.field, op, x.value⟩ = .error (.inexpressible what)

namespace Session

variable {v : Validator} {r : Request} {f : Facet} {e : Refusal} {q q' : Select}

/-- `Leaves v r q f e q'` says that a run of `f` that fails with `e` leaves `q'` of the query
`q`. -/
inductive Leaves (v : Validator) (r : Request) (q : Select) : Facet → Refusal → Select → Prop where
  /-- Parameters that do not pass leave it as it was. -/
  | rejected {f : Facet} {e : Refusal} : f.validate v r = .error e → Leaves v r q f e q
  /-- A filter that passes leaves the conditions of the entries before the one that has none. -/
  | interrupted {before after : List Filter.Entry} {x : Filter.Entry} {what : Inexpressible}
      {es : List Expr} : Facet.filter.validate v r = .ok () →
      Filter.asked r = before ++ x :: after → x.Refused what →
      List.Forall₂ Filter.Entry.Asks before es → (es.foldl Select.filter q = q ↔ before = []) →
      Leaves v r q .filter (.inexpressible what) (es.foldl Select.filter q)

/-- **A filter that passes and fails** has added the conditions of the entries before the one that
fails. -/
theorem leaves_of_filter (hr : r.WellFormed) (hon : Facet.filter.isEnabled r.schema = true)
    (hc : Filter.validate v r = .ok ())
    (h : (Filter.apply (Backend.ofDialect v) (Filter.flat r)).run q = (.error e, q')) :
    Leaves v r q .filter e q' := by
  obtain ⟨ps, hps, -, hchecks⟩ := Filter.validate_eq_ok_iff.mp hc
  rw [Filter.apply_flat _ hr hps] at h
  obtain ⟨before, p, after, q₁, rfl, hbefore, hp⟩ := Build.run_forM_error h
  have hsupports := (Validator.check_eq_ok_iff.mp (hchecks p (by simp))).1
  obtain ⟨rfl, hexpr⟩ := Backend.run_filter_error hsupports hp
  obtain ⟨what, rfl⟩ := p.inexpressibly_toExpr e hexpr
  -- The predicates before `p` have all been applied.
  have step (p : Predicate) (q q' : Select)
      (h : ((Backend.ofDialect v).filter p).run q = (.ok (), q')) :
      ∃ e, p.Asks e ∧ q' = q.filter e := (Backend.run_filter_ok_iff.mp h).2
  obtain ⟨es, hes, rfl⟩ := Build.run_forM_ok step hbefore
  have hasked := Filter.map_entry_of_requested hps
  rw [List.map_append, List.map_cons] at hasked
  refine .interrupted (Facet.validate_of_isEnabled hon ▸ hc) hasked.symm ⟨p.op, rfl, hexpr⟩ ?_ ?_
  · exact List.forall₂_map_left_iff.mpr (hes.imp fun p e he => ⟨p.op, rfl, he⟩)
  · rw [Select.foldl_filter_eq_self_iff, List.map_eq_nil_iff, ← List.length_eq_zero_iff,
      ← List.length_eq_zero_iff, hes.length_eq]
    intro e he
    obtain ⟨p, -, hp⟩ := exists_left_of_mem hes he
    exact hp.isTrue_eq_false

/-- Filters by two entries, of which the second cannot be expressed. -/
def nested : Request where
  params :=
    [("filter", .object
        [("a", .ofUInt64 1), ("b", .object [("in", .array [.array [.ofUInt64 1]])])])]
  schema := Schema.standard

/-- What a run for `nested` leaves of a query of the table `t`. -/
def nestedLeft : Select :=
  { Select.ofTable "t" with condition := .compare (.column "a") .equal (.literal (.int 1)) }

theorem wellFormed_nested : nested.WellFormed where
  params := by simp [nested, Dictionary.keys, Value.ofUInt64]
  defaultFilter := by simp [nested, Schema.standard, FilterSchema.standard, Dictionary.keys]

/-- The condition of the first entry stays, as the second cannot be expressed. -/
theorem run_nested :
    (((Visit.start .filter).calls (.ofOperators Operator.all) nested []).2.run
        (.sqlWith Operator.all) nested).run (.ofTable "t")
      = (.error (.inexpressible .nestedArray), nestedLeft) := by
  decide +kernel

/-- **What a failed run leaves** of a query over SQL, whatever has been asked in the visit before:
everything as it was, or the conditions of some entries of a filter behind it. -/
theorem leaves_of_run (hr : r.WellFormed) (ops : List Operator) (cs : List Call)
    (h : (((Visit.start f).calls (.ofOperators ops) r cs).2.run (.sqlWith ops) r).run q
      = (.error e, q')) : Leaves (.ofOperators ops) r q f e q' := by
  have hvisit : ((Visit.start f).calls (.ofOperators ops) r cs).2.run (.sqlWith ops) r
      = f.run (.sqlWith ops) r := Visit.run_calls f (.sqlWith ops) r cs
  rw [hvisit] at h
  rcases Facet.run_error_iff.mp h with ⟨hv, rfl⟩ | ⟨hon, hc, happly⟩
  · exact .rejected hv
  · cases f with
    | filter => exact leaves_of_filter hr hon hc happly
    | sort =>
        -- Every dialect sorts and pages, so what has passed is not refused any more.
        obtain ⟨fs, hfs⟩ := Sort.exists_fields_of_validate hc
        rw [Facet.apply, Facet.entries, hfs, Sort.apply_map_ofField] at happly
        obtain ⟨_, s, _, _, _, _, hs⟩ := Build.run_forM_error happly
        exact absurd hs (Backend.run_sort_ne_error (Validator.supports_ofOperators_sort ops))
    | page =>
        obtain ⟨n, -, hn⟩ := Paging.asked_of_validate hc
        rw [Facet.apply, Facet.entries, Paging.apply_flat _ hn] at happly
        exact absurd happly (Backend.run_page_ne_error (Validator.supports_ofOperators_page ops))

theorem leaves_of_run_nested :
    nested.WellFormed ∧
      (((Visit.start .filter).calls (.ofOperators Operator.all) nested []).2.run
          (.sqlWith Operator.all) nested).run (.ofTable "t")
        = (.error (.inexpressible .nestedArray), nestedLeft) ∧
      Leaves (.ofOperators Operator.all) nested (.ofTable "t") .filter
        (.inexpressible .nestedArray) nestedLeft :=
  ⟨wellFormed_nested, run_nested, leaves_of_run wellFormed_nested Operator.all [] run_nested⟩

/-- A failed run need not leave a query as it was. -/
theorem not_forall_eq_of_run_error :
    ¬ ∀ (r : Request) (ops : List Operator) (f : Facet) (cs : List Call) (q q' : Select)
      (e : Refusal), r.WellFormed →
      (((Visit.start f).calls (.ofOperators ops) r cs).2.run (.sqlWith ops) r).run q
        = (.error e, q') → q' = q := by
  intro h
  have heq := h nested Operator.all .filter [] _ _ _ wellFormed_nested run_nested
  have hcondition : nestedLeft.condition = .literal (.bool true) := by rw [heq]; rfl
  cases hcondition

end Session

end FacetQuery
