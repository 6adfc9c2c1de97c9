import FacetQuery.Proofs.Facet.Inexpressible
import FacetQuery.Proofs.Query.Dialects
import FacetQuery.Proofs.Session.Answers

/-!
# Session — How a run over SQL ends

Parameters that have passed leave little to go wrong.  A sort and a page are applied, whatever they
are; of a filter, the first entry that SQL cannot express is named.

* `Session.Ends r f x`: a run of `f` for `r` ends with `x`.
* `Session.fst_take_iff`: the end of any run over SQL whose facet passes, whatever the dialect is,
  what the visit has asked before and what has been built.
-/

namespace FacetQuery

open Json Sql

/-- What an SQL backend says to a filter that it has the operator of. -/
theorem Backend.fst_run_filter {v : Validator} {p : Predicate}
    (hv : v.supports (.filter p.op) = true) (q : Select) :
    (((ofDialect v).filter p).run q).1 = p.express := by
  unfold Predicate.express
  rcases h : ((ofDialect v).filter p).run q with ⟨e | ⟨⟩, q'⟩
  · rw [(run_filter_error hv h).2]
    rfl
  · obtain ⟨-, e, he, -⟩ := run_filter_ok_iff.mp h
    rw [Predicate.toExpr_eq_ok_iff.mpr he]
    rfl

namespace Session

/-- `Ends r f x` says that a run of `f` over SQL ends with `x`, if the parameters in `r` have
passed. -/
inductive Ends (r : Request) : Facet → Except Refusal Unit → Prop where
  /-- The first entry that SQL cannot express. -/
  | stuck {x : Filter.Entry} {what : Inexpressible} :
      First Filter.Entry.IsStuck r.filterEntries x → x.Stuck what →
      Ends r .filter (.error (.inexpressible what))
  /-- There is none. -/
  | filter : (∀ x ∈ r.filterEntries, ¬ x.IsStuck) → Ends r .filter (.ok ())
  | sort : Ends r .sort (.ok ())
  | page : Ends r .page (.ok ())

variable {v : Validator} {r : Request} {f : Facet} {x : Except Refusal Unit}

theorem ends_filter_ok_iff : Ends r .filter (.ok ()) ↔ ∀ x ∈ r.filterEntries, ¬ x.IsStuck :=
  ⟨fun h => by cases h; assumption, .filter⟩

theorem ends_filter_error_iff {e : Refusal} : Ends r .filter (.error e) ↔
    ∃ x what, First Filter.Entry.IsStuck r.filterEntries x ∧ x.Stuck what ∧
      e = .inexpressible what := by
  constructor
  · intro h
    cases h with
    | stuck hx hwhat => exact ⟨_, _, hx, hwhat, rfl⟩
  · rintro ⟨x, what, hx, hwhat, rfl⟩
    exact .stuck hx hwhat

theorem ends_sort_iff : Ends r .sort x ↔ .ok () = x :=
  ⟨fun h => by cases h; rfl, fun h => h ▸ .sort⟩

theorem ends_page_iff : Ends r .page x ↔ .ok () = x :=
  ⟨fun h => by cases h; rfl, fun h => h ▸ .page⟩

/-- **A filter that passes** is applied entry by entry, so it ends where the first entry cannot be
expressed. -/
theorem fst_apply_filter_iff (hr : r.WellFormed) (hon : Facet.filter.isEnabled r.schema = true)
    (hc : Filter.validate v r = .ok ()) (q : Select) :
    ((Filter.apply (.ofDialect v) (Filter.flat r)).run q).1 = x ↔ Ends r .filter x := by
  obtain ⟨ps, hps, -, hchecks⟩ := Filter.validate_eq_ok_iff.mp hc
  have hsupports : ∀ p ∈ ps, v.supports (.filter p.op) = true :=
    fun p hp => (Validator.check_eq_ok_iff.mp (hchecks p hp)).1
  have htakes : ∀ p ∈ ps, p.op.cls.Takes p.value := fun p hp =>
    ValueShape.admits_iff_takes.mp (Validator.check_eq_ok_iff.mp (hchecks p hp)).2
  rw [Filter.apply_flat _ hr hps,
    Build.fst_run_forM (fun p hp => Backend.fst_run_filter (hsupports p hp))]
  rcases x with e | ⟨⟩
  · rw [Filter.forM_express_eq_error_iff htakes, ends_filter_error_iff,
      Request.filterEntries_eq_map hon hps]
  · rw [Filter.forM_express_eq_ok_iff htakes, ends_filter_ok_iff,
      Request.filterEntries_eq_map hon hps]

/-- A facet that is switched off always ends well. -/
theorem ends_disabled_iff (hoff : f.isEnabled r.schema = false) : Ends r f x ↔ .ok () = x := by
  cases f with
  | filter =>
      have hnone : r.filterEntries = [] := if_neg fun hon => Bool.false_ne_true (hoff.symm.trans hon)
      rcases x with e | ⟨⟩
      · simp [ends_filter_error_iff, hnone, not_first_nil]
      · exact iff_of_true (ends_filter_ok_iff.mpr (by simp [hnone])) rfl
  | sort => exact ends_sort_iff
  | page => exact ends_page_iff

/-- **The end of a run over SQL** whose facet passes, in any dialect that has its operators,
whatever was asked in the visit and whatever is built. -/
theorem fst_take_iff (hr : r.WellFormed) (ops : List Operator) (cs : List Call)
    (hv : f.validate (.ofOperators ops) r = .ok ()) (q : Select) :
    (take (.sqlWith ops) r ⟨f, cs, true⟩ q).1 = some x ↔ Ends r f x := by
  have hrun : (f.run (.sqlWith ops) r).run q =
      if f.isEnabled r.schema then (f.apply (.sqlWith ops) (f.entries r)).run q
      else (.ok (), q) := by
    have hvalidator : (Backend.sqlWith ops).validator = .ofOperators ops := rfl
    rw [Facet.run_eq, hvalidator, hv]
  rw [take_run, Option.some_inj, hrun]
  cases hon : f.isEnabled r.schema with
  | false => exact (ends_disabled_iff hon).symm
  | true =>
      -- Switched on, the facet has passed its check, and only a filter can still go wrong.
      have hc : f.check (.ofOperators ops) r = .ok () := Facet.validate_of_isEnabled hon ▸ hv
      cases f with
      | filter => exact fst_apply_filter_iff hr hon hc q
      | sort   => exact (Sort.fst_apply_flat ops hc q).congr_left.trans ends_sort_iff.symm
      | page   => exact (Paging.fst_apply_flat ops hc q).congr_left.trans ends_page_iff.symm

/-- Filters by three entries; the second one lacks a bound, and the third one is not looked at. -/
def unbounded : Request where
  params :=
    [("filter", .object
        [("a", .object [("in", .array [.ofUInt64 1])]),
         ("b", .object [("between", .array [.ofUInt64 1])]),
         ("c", .object [("not in", .array [.null, .object []])])])]
  schema := Schema.standard

/-- The entry without its second bound is named, and not the object in the list behind it. -/
theorem fst_take_iff_unbounded :
    unbounded.WellFormed ∧
      Facet.filter.validate (.ofOperators Operator.all) unbounded = .ok () ∧
      (take (.sqlWith Operator.all) unbounded ⟨.filter, [.validate], true⟩ (.ofTable "t")).1
        = some (.error (.inexpressible (.missingBounds .between))) ∧
      Ends unbounded .filter (.error (.inexpressible (.missingBounds .between))) :=
  have hr : unbounded.WellFormed :=
    { params := by simp [unbounded, Dictionary.keys, Value.ofUInt64]
      defaultFilter := by simp [unbounded, Schema.standard, FilterSchema.standard, Dictionary.keys] }
  have hv : Facet.filter.validate (.ofOperators Operator.all) unbounded = .ok () := by decide +kernel
  have htake : (take (.sqlWith Operator.all) unbounded ⟨.filter, [.validate], true⟩
      (.ofTable "t")).1 = some (.error (.inexpressible (.missingBounds .between))) := by decide +kernel
  ⟨hr, hv, htake, (fst_take_iff hr Operator.all [.validate] hv (.ofTable "t")).mp htake⟩

end Session

end FacetQuery
