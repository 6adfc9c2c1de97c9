import FacetQuery.Proofs.Facet.Filter
import FacetQuery.Proofs.Facet.Paging
import FacetQuery.Proofs.Facet.Sort

/-!
# Query — Dialects with fewer operators

A dialect of SQL may lack some operators.  It never turns a request into another query than the
dialect with all operators does; where it cannot follow, it says which operator it lacks.

* `Filter.run_congr_of_supports`: a filter runs alike in dialects that have the operators it uses.
* `Filter.validate_of_unsupported`: a filter that would pass is refused for the first operator that
  is not there.
* `Request.Restricted`: what a dialect makes of a request, beside what the full dialect makes of it;
  `Request.restricted_query`: this holds of every request and every set of operators.
-/

namespace FacetQuery

open Json Sql

variable {v w : Validator} {r : Request}

/-! ### Dialects that agree -/

/-- Loops over steps that are the same for every element are the same. -/
theorem forM_congr {m : Type → Type} [Monad m] {α : Type} {f g : α → m PUnit} {xs : List α}
    (h : ∀ x ∈ xs, f x = g x) : xs.forM f = xs.forM g := by
  induction xs with
  | nil => rfl
  | cons x xs ih =>
      obtain ⟨hx, hxs⟩ := List.forall_mem_cons.mp h
      rw [List.forM, List.forM, hx, ih hxs]

namespace Validator

theorem supports_ofOperators_filter {ops : List Operator} {op : Operator} :
    (ofOperators ops).supports (.filter op) = true ↔ op ∈ ops := by
  simp [supports, ofOperators]

theorem check_congr {o : Operation} (h : v.supports o = w.supports o) : v.check o = w.check o := by
  funext field value
  simp only [check, require, h]

end Validator

theorem Backend.filter_congr {p : Predicate}
    (h : v.supports (.filter p.op) = w.supports (.filter p.op)) :
    (ofDialect v).filter p = (ofDialect w).filter p := by
  simp only [ofDialect, Validator.require, h]

/-- A filter passes in both of two dialects or in neither, if they agree on its operators. -/
theorem Filter.validate_congr_of_supports (h : ∀ ps, requested r = .ok ps →
    ∀ p ∈ ps, v.supports (.filter p.op) = w.supports (.filter p.op)) :
    validate v r = validate w r := by
  unfold validate
  rcases hr : requested r with e | ps
  · rfl
  · have hforM : (ps.forM fun p => v.check (.filter p.op) p.field p.value)
        = ps.forM fun p => w.check (.filter p.op) p.field p.value :=
      forM_congr fun p hp => by rw [Validator.check_congr (h ps hr p hp)]
    simp only [bind, Except.bind, hforM]

/-- It is applied alike, too. Only operators of predicates that have been read are asked for, and
these are the ones listed. -/
theorem Filter.apply_congr_of_supports (h : ∀ ps, requested r = .ok ps →
    ∀ p ∈ ps, v.supports (.filter p.op) = w.supports (.filter p.op)) :
    apply (Backend.ofDialect v) (flat r) = apply (Backend.ofDialect w) (flat r) := by
  rcases hr : requested r with e | ps
  · rw [flat, hr]
    rfl
  · refine forM_congr fun x hx => ?_
    -- What is read back from a key is the predicate that was put under it.
    obtain ⟨p, hp, rfl⟩ := mem_flat hr hx
    simp only [ofFlat?_flatKey]
    exact Backend.filter_congr (h ps hr p hp)

/-- A filter runs alike in dialects that agree on the operators of its entries: it is validated
alike, and then applied alike. -/
theorem Filter.run_congr_of_supports (h : r.schema.filter.isEnabled = true →
    ∀ ps, requested r = .ok ps →
      ∀ p ∈ ps, v.supports (.filter p.op) = w.supports (.filter p.op)) :
    Facet.filter.run (Backend.ofDialect v) r = Facet.filter.run (Backend.ofDialect w) r := by
  simp only [Facet.run, Facet.validate, Facet.flat]
  split
  · next hon =>
      have hc : Facet.filter.check (Backend.ofDialect v).validator r
          = Facet.filter.check (Backend.ofDialect w).validator r :=
        validate_congr_of_supports (h hon)
      have ha : Facet.filter.apply (Backend.ofDialect v) (Facet.filter.entries r)
          = Facet.filter.apply (Backend.ofDialect w) (Facet.filter.entries r) :=
        apply_congr_of_supports (h hon)
      rw [hc, ha]
  · rfl

theorem Sort.checkEntries_congr_of_supports (h : v.supports .sort = w.supports .sort)
    (fields : Fields) (seen : List String) (es : List Entry) :
    checkEntries v fields seen es = checkEntries w fields seen es := by
  induction es generalizing seen with
  | nil => rfl
  | cons e es ih => simp only [checkEntries, Validator.check_congr h, ih]

theorem Sort.run_congr_of_supports (h : v.supports .sort = w.supports .sort) (r : Request) :
    Facet.sort.run (Backend.ofDialect v) r = Facet.sort.run (Backend.ofDialect w) r := by
  have hc : Facet.sort.check v r = Facet.sort.check w r := by
    simp only [Facet.check, validate, checkEntries_congr_of_supports h]
  have hb : (Backend.ofDialect v).sort = (Backend.ofDialect w).sort := by
    simp only [Backend.ofDialect, Validator.require, h]
  have ha (params : Dictionary Value) :
      apply (Backend.ofDialect v) params = apply (Backend.ofDialect w) params := by
    unfold apply
    rw [hb]
  simp only [Facet.run, Facet.validate, Facet.apply, ha]
  rw [show (Backend.ofDialect v).validator = v from rfl, hc]
  rfl

theorem Paging.run_congr_of_supports (h : v.supports .page = w.supports .page) (r : Request) :
    Facet.page.run (Backend.ofDialect v) r = Facet.page.run (Backend.ofDialect w) r := by
  have hc : Facet.page.check v r = Facet.page.check w r := by
    simp only [Facet.check, validate, Validator.check_congr h]
  have hb : (Backend.ofDialect v).page = (Backend.ofDialect w).page := by
    simp only [Backend.ofDialect, Validator.require, h]
  have ha (params : Dictionary Value) :
      apply (Backend.ofDialect v) params = apply (Backend.ofDialect w) params := by
    unfold apply
    rw [hb]
  simp only [Facet.run, Facet.validate, Facet.apply, ha]
  rw [show (Backend.ofDialect v).validator = v from rfl, hc]
  rfl

/-! ### Operators that are not there -/

/-- A check of predicates whose values have their shapes stops at the first operator that the
backend lacks. -/
theorem Filter.forM_check_of_unsupported {before : List Predicate} {p : Predicate}
    (hbefore : ∀ p ∈ before, v.check (.filter p.op) p.field p.value = .ok ())
    (hp : v.supports (.filter p.op) = false) (after : List Predicate) :
    (before ++ p :: after).forM (fun p => v.check (.filter p.op) p.field p.value)
      = .error (.unsupported (.filter p.op)) := by
  induction before with
  | nil =>
      rw [List.nil_append, List.forM]
      simp [Validator.check, Validator.require, hp, bind, Except.bind]
  | cons p' before ih =>
      obtain ⟨hp', hbefore⟩ := List.forall_mem_cons.mp hbefore
      rw [List.cons_append, List.forM, hp', ← ih hbefore]
      rfl

/-- **A filter that passes in one dialect** is refused in another one for the first of its operators
that is not there. -/
theorem Filter.validate_of_unsupported {ps before after : List Predicate} {p : Predicate}
    (hw : validate w r = .ok ()) (hps : requested r = .ok ps) (hsplit : ps = before ++ p :: after)
    (hbefore : ∀ p ∈ before, v.supports (.filter p.op) = true)
    (hp : v.supports (.filter p.op) = false) :
    validate v r = .error (.unsupported (.filter p.op)) := by
  obtain ⟨ps', hps', hperm, hchecks⟩ := validate_eq_ok_iff.mp hw
  cases Except.ok.inj (hps.symm.trans hps')
  have hfields : (r.param? parameter).isSome = true →
      checkFields r.schema.filter.fields ps = .ok () :=
    fun h => checkFields_eq_ok_iff.mpr (hperm h)
  have hforM := forM_check_of_unsupported (fun p hp => Validator.check_eq_ok_iff.mpr
    ⟨hbefore p hp, (Validator.check_eq_ok_iff.mp (hchecks p (by simp [hsplit, hp]))).2⟩) hp after
  rw [validate, hps, ← hforM, ← hsplit]
  by_cases hs : (r.param? parameter).isSome = true
  · simp only [bind, Except.bind, hs, if_true, hfields hs]
  · simp only [bind, Except.bind, hs, Bool.false_eq_true, if_false]

/-! ### Requests -/

namespace Request

/-- `filterEntries r` are the entries by which `r` filters, its own or those of the schema; none if
filtering is switched off. -/
def filterEntries (r : Request) : List Filter.Entry :=
  if r.schema.filter.isEnabled then Filter.asked r else []

/-- `Restricted ops r x y` says that a dialect with the operators `ops` makes `y` of the request
`r`, of which the full dialect makes `x`. -/
inductive Restricted (ops : List Operator) (r : Request) :
    Except Refusal Select → Except Refusal Select → Prop where
  /-- It makes the same query where it has all operators that are used. -/
  | same {q : Select} : (∀ x ∈ r.filterEntries, x.name ∈ ops.map Operator.name) →
      Restricted ops r (.ok q) (.ok q)
  /-- It names the first operator that it lacks. -/
  | unsupported {q : Select} {before after : List Filter.Entry} {x : Filter.Entry}
      {o : Operation} : r.filterEntries = before ++ x :: after →
      (∀ y ∈ before, y.name ∈ ops.map Operator.name) → x.name ∉ ops.map Operator.name →
      o.name = "filter:" ++ x.name → Restricted ops r (.ok q) (.error (.unsupported o))
  /-- What the full dialect refuses it refuses as well. -/
  | refused {e e' : Refusal} : Restricted ops r (.error e) (.error e')

variable {ops : List Operator} {q : Select}

/-- **A request that keeps to the operators of a dialect** is turned into the query of the full one.
-/
theorem query_congr_of_mem (h : r.schema.filter.isEnabled = true →
    ∀ ps, Filter.requested r = .ok ps → ∀ p ∈ ps, p.op ∈ ops) (q : Select) :
    r.query (.sqlWith ops) q = r.query .sql q := by
  have hfilter : Facet.filter.run (.sqlWith ops) r = Facet.filter.run .sql r := by
    refine Filter.run_congr_of_supports fun hon ps hps p hp => ?_
    rw [Validator.supports_ofOperators_filter.mpr (h hon ps hps p hp), Validator.supports_full]
  have hsort : Facet.sort.run (.sqlWith ops) r = Facet.sort.run .sql r := by
    refine Sort.run_congr_of_supports ?_ r
    rw [Validator.supports_ofOperators_sort, Validator.supports_full]
  have hpage : Facet.page.run (.sqlWith ops) r = Facet.page.run .sql r := by
    refine Paging.run_congr_of_supports ?_ r
    rw [Validator.supports_ofOperators_page, Validator.supports_full]
  rw [query, query, build, build, hfilter, hsort, hpage]

/-- A query that is built says that its filter, if it is switched on, has passed. -/
theorem validate_of_query {b : Backend Select} {start : Select} (h : r.query b start = .ok q)
    (hon : r.schema.filter.isEnabled = true) : Filter.validate b.validator r = .ok () := by
  obtain ⟨q₁, -, hfilter, -, -⟩ := query_ok_iff.mp h
  rcases Facet.run_ok_iff.mp hfilter with ⟨hoff, -⟩ | ⟨-, hc, -⟩
  · exact absurd hon (by rw [show r.schema.filter.isEnabled = false from hoff]; decide)
  · exact hc

/-- A filter that does not pass is why the request is refused, as it is run first. -/
theorem query_of_validate_error {b : Backend Select} {e : Refusal}
    (hon : r.schema.filter.isEnabled = true) (h : Filter.validate b.validator r = .error e)
    (start : Select) : r.query b start = .error e := by
  have hrun : (Facet.filter.run b r).run start = (.error e, start) :=
    Facet.run_error_iff.mpr
      (.inl ⟨(Facet.validate_of_isEnabled (f := .filter) hon).trans h, rfl⟩)
  rw [query, build, Build.run_bind, hrun]

theorem filterEntries_eq_map (hon : r.schema.filter.isEnabled = true) {ps : List Predicate}
    (h : Filter.requested r = .ok ps) : r.filterEntries = ps.map Filter.entry := by
  rw [filterEntries, if_pos hon, Filter.map_entry_of_requested h]

/-- An operator is among others if its name is among theirs. -/
theorem name_mem_map_iff {op : Operator} : op.name ∈ ops.map Operator.name ↔ op ∈ ops :=
  List.mem_map_of_injective Operator.name_injective

/-- A request that the full dialect turns into a query, in a dialect with some operators: the same
query, or the first operator that is missing. -/
theorem restricted_of_query (ops : List Operator) {start : Select}
    (h : r.query .sql start = .ok q) :
    r.Restricted ops (.ok q) (r.query (.sqlWith ops) start) := by
  cases hon : r.schema.filter.isEnabled with
  | false =>
      rw [query_congr_of_mem (by simp [hon]), h]
      exact .same (by simp [filterEntries, hon])
  | true =>
      -- The filter has passed, so it has predicates that differ in their operators at most.
      have hv := validate_of_query h hon
      obtain ⟨ps, hps, -⟩ := Filter.validate_eq_ok_iff.mp hv
      have hentries := filterEntries_eq_map hon hps
      by_cases hops : ∀ p ∈ ps, p.op ∈ ops
      · rw [query_congr_of_mem fun _ ps' hps' => Except.ok.inj (hps.symm.trans hps') ▸ hops, h]
        refine .same fun x hx => ?_
        rw [hentries] at hx
        obtain ⟨p, hp, rfl⟩ := List.mem_map.mp hx
        exact name_mem_map_iff.mpr (hops p hp)
      · -- Some operator is not there: `p` is the first predicate that uses such a one.
        have hsome : (ps.find? fun p => p.op ∉ ops).isSome = true := by
          simpa using hops
        obtain ⟨p, hfind⟩ := Option.isSome_iff_exists.mp hsome
        obtain ⟨hp, before, after, hsplit, hbefore⟩ := List.find?_eq_some_iff_append.mp hfind
        have hpop : p.op ∉ ops := by simpa using hp
        have hbops : ∀ p ∈ before, p.op ∈ ops := by simpa using hbefore
        have hrefused : Filter.validate (Validator.ofOperators ops) r
            = .error (.unsupported (.filter p.op)) :=
          Filter.validate_of_unsupported hv hps hsplit
            (fun p hp => Validator.supports_ofOperators_filter.mpr (hbops p hp))
            (by rw [← Bool.not_eq_true, Validator.supports_ofOperators_filter]; exact hpop)
        rw [query_of_validate_error hon hrefused]
        rw [hsplit, List.map_append, List.map_cons] at hentries
        refine .unsupported hentries (fun y hy => ?_) (mt name_mem_map_iff.mp hpop) rfl
        obtain ⟨p', hp', rfl⟩ := List.mem_map.mp hy
        exact name_mem_map_iff.mpr (hbops p' hp')

/-- **A dialect with fewer operators** never changes the query of a request, it only refuses it.
What the full dialect refuses stays refused. -/
theorem restricted_query (ops : List Operator) (r : Request) (start : Select) :
    r.Restricted ops (r.query .sql start) (r.query (.sqlWith ops) start) := by
  rcases h : r.query .sql start with e | q
  · rcases h' : r.query (.sqlWith ops) start with e' | q
    · exact .refused
    · -- All operators of a filter that passes are there, so the full dialect would follow.
      have hmem : r.schema.filter.isEnabled = true →
          ∀ ps, Filter.requested r = .ok ps → ∀ p ∈ ps, p.op ∈ ops := by
        intro hon ps hps p hp
        obtain ⟨ps', hps', -, hchecks⟩ := Filter.validate_eq_ok_iff.mp (validate_of_query h' hon)
        cases Except.ok.inj (hps.symm.trans hps')
        exact Validator.supports_ofOperators_filter.mp
          (Validator.check_eq_ok_iff.mp (hchecks p hp)).1
      rw [query_congr_of_mem hmem, h] at h'
      cases h'
  · exact restricted_of_query ops h

/-- Filters by three operators, the second of which is missing from some dialects. -/
def liking : Request where
  params := [("filter", .object
    [("a", .object [("like", .string "x"), ("ilike", .string "y"), ("=", .string "z")])])]
  schema := .standard

/-- What `liking` asks of the table `t`. -/
def likingQuery : Select where
  columns := none
  source := some ⟨none, "t"⟩
  condition := .and
    (.and (.compare (.column "a") .like (.literal (.string "x")))
      (.compare (.column "a") .ilike (.literal (.string "y"))))
    (.compare (.column "a") .equal (.literal (.string "z")))
  orderBy := []
  limit := ⟨some 20, some 0⟩

theorem query_liking : liking.query .sql (.ofTable "t") = .ok likingQuery := by decide +kernel

/-- A dialect that only knows `=` and `like` refuses the second operator of the filter, and says so
by its name. -/
theorem restricted_query_liking :
    liking.query (.sqlWith [.equal, .like]) (.ofTable "t")
        = .error (.unsupported (.filter .ilike)) ∧
      liking.Restricted [.equal, .like] (.ok likingQuery)
        (.error (.unsupported (.filter .ilike))) := by
  have hrefused : liking.query (.sqlWith [.equal, .like]) (.ofTable "t")
      = .error (.unsupported (.filter .ilike)) := by decide +kernel
  have h := restricted_query [.equal, .like] liking (.ofTable "t")
  rw [query_liking, hrefused] at h
  exact ⟨hrefused, h⟩

end Request

end FacetQuery
