import FacetQuery.Proofs.Facet.Filter
import FacetQuery.Proofs.Facet.Paging
import FacetQuery.Proofs.Facet.Sort
import FacetQuery.Proofs.Sql.Names

/-!
# Query — The columns that a request reaches

A request chooses columns in its filter and in its sort only, and only such as the schema permits
there; what it leaves out is filled in from the schema's defaults.

* `Request.MayFilterBy`, `Request.MaySortBy`: the columns that a request may filter by, and those
  that it may sort by.
* `Request.Reaches r table q`: the query `q` names the table, such columns and nothing else.
* `Request.reaches_of_query`: the query of a request is of this kind, whatever the request is.
-/

namespace FacetQuery

open Json Sql

/-! ### Conditions -/

namespace Sql.Expr

theorem leavesOfEach_map_literal (ls : List Literal) :
    leavesOfEach (ls.map .literal) = ls.map .literal := by
  induction ls with
  | nil => rfl
  | cons l ls ih =>
      rw [List.map_cons, leavesOfEach, leaves, ih]
      rfl

/-- Conditions joined one by one have the leaves of all of them, in order. -/
theorem leaves_foldl_and (e : Expr) (es : List Expr) :
    (es.foldl .and e).leaves = e.leaves ++ es.flatMap leaves := by
  induction es generalizing e with
  | nil => simp
  | cons e' es ih => rw [List.foldl_cons, ih, leaves, List.flatMap_cons, List.append_assoc]

theorem operands_foldl_and (e : Expr) (es : List Expr) :
    (es.foldl .and e).operands = e.operands ++ es.flatMap operands := by
  induction es generalizing e with
  | nil => simp
  | cons e' es ih => rw [List.foldl_cons, ih, operands, List.flatMap_cons, List.append_assoc]

/-- Conditions together hold the leaves of each of them, and no others but the literal `true`. -/
theorem filterMap_leaves_all {f : Expr → Option String} (hf : f (.literal (.bool true)) = none)
    (es : List Expr) : (all es).leaves.filterMap f = es.flatMap (·.leaves.filterMap f) := by
  cases es with
  | nil => rw [all, leaves, List.filterMap_cons_none hf]; rfl
  | cons e es => rw [all, leaves_foldl_and, ← List.flatMap_cons, List.filterMap_flatMap]

theorem names_all (es : List Expr) : (all es).names = es.flatMap names :=
  filterMap_leaves_all rfl es

theorem strings_all (es : List Expr) : (all es).strings = es.flatMap strings :=
  filterMap_leaves_all rfl es

theorem operands_all (es : List Expr) : (all es).operands = es.flatMap operands := by
  cases es with
  | nil => rfl
  | cons e es => rw [all, operands_foldl_and, List.flatMap_cons]

end Sql.Expr

/-- The condition of a predicate names the predicate's field at most. That of an empty list names
nothing. -/
theorem Predicate.Asks.eq_field_of_mem_names {p : Predicate} {e : Expr} (h : p.Asks e)
    {name : String} (hn : name ∈ e.names) : name = p.field := by
  cases h with
  | compare | isNull | between => exact List.mem_singleton.mp hn
  | memberOfNone => exact absurd hn List.not_mem_nil
  | @member _ _ ls =>
      have literals : (ls.map Expr.literal).filterMap Expr.name? = [] := by
        simp [Expr.name?]
      rw [Expr.names, Expr.leaves, Expr.leavesOfEach_map_literal, List.filterMap_append,
        literals] at hn
      exact List.mem_singleton.mp hn

/-- The condition of a predicate compares with literals only: no value of a request becomes a column
on the right. -/
theorem Predicate.Asks.exists_literal_of_mem_operands {p : Predicate} {e : Expr} (h : p.Asks e)
    {x : Expr} (hx : x ∈ e.operands) : ∃ l, x = .literal l := by
  cases h with
  | compare | memberOfNone => exact ⟨_, List.mem_singleton.mp hx⟩
  | isNull                 => exact absurd hx List.not_mem_nil
  | member                 =>
      obtain ⟨l, -, rfl⟩ := List.mem_map.mp hx
      exact ⟨l, rfl⟩
  | between                =>
      rcases List.mem_cons.mp hx with rfl | hx
      · exact ⟨_, rfl⟩
      · exact ⟨_, List.mem_singleton.mp hx⟩

/-! ### Requests -/

namespace Request

/-- `MayFilterBy r name`: the request has a filter by the field `name`, and the schema permits it;
or it has none, and the schema's own filter is by this field among others. -/
def MayFilterBy (r : Request) (name : String) : Prop :=
  (∃ x ∈ Filter.asked r, x.field = name) ∧
  match r.param? Filter.parameter with
  | some _ => r.schema.filter.fields.Allows name
  | none   => name ∈ Dictionary.keys r.schema.filter.default

/-- `MaySortBy r f`: the request has a sort by the field `f`, which is not empty and which the
schema permits; or it has none, and the schema's own sort is by this field among others. -/
def MaySortBy (r : Request) (f : SortField) : Prop :=
  match r.param? Sort.parameter with
  | some v => (∃ fs, Sort.Named v fs ∧ f ∈ fs) ∧ f.field ≠ "" ∧
      r.schema.sort.fields.Allows f.field
  | none   => f ∈ r.schema.sort.default

/-- `Reaches r table q` says that `q` takes its names from where it may. -/
structure Reaches (r : Request) (table : String) (q : Select) : Prop where
  columns : q.columns = none
  source : q.source = some ⟨none, table⟩
  condition : ∀ name ∈ q.condition.names, r.MayFilterBy name
  /-- Columns are compared with literals, never with one another. -/
  operands : ∀ e ∈ q.condition.operands, ∃ l, e = .literal l
  orderBy : ∀ key ∈ q.orderBy, ∃ f, key.target = .column f.field ∧ r.MaySortBy f

end Request

variable {v : Validator} {r : Request} {q q' : Select} {table : String}

theorem Filter.field_mem_keys_of_mem_entriesOf {fields : Dictionary Value} {x : Entry}
    (h : x ∈ entriesOf fields) : x.field ∈ Dictionary.keys fields := by
  obtain ⟨f, hf, hx⟩ := List.mem_flatMap.mp h
  exact List.mem_map.mpr ⟨f, hf, (field_of_mem_entriesAt hx).symm⟩

/-- What is checked is what is applied: the list comes from the predicates that were checked. The
schema's own filter is not. -/
theorem Filter.mayFilterBy_of_requested {ps : List Predicate} (hps : requested r = .ok ps)
    (hperm : (r.param? parameter).isSome →
      ∀ p ∈ ps, r.schema.filter.fields.Allows p.field)
    {p : Predicate} (hp : p ∈ ps) : r.MayFilterBy p.field := by
  have hmem : entry p ∈ asked r := map_entry_of_requested hps ▸ List.mem_map_of_mem hp
  refine ⟨⟨entry p, hmem, rfl⟩, ?_⟩
  split
  · next hv => exact hperm (by rw [hv]; rfl) p hp
  · next hn =>
      rw [asked, hn] at hmem
      exact field_mem_keys_of_mem_entriesOf hmem

/-- The run of the filter adds a condition that reaches no column but those that may be filtered by,
and compares with literals. -/
theorem Filter.condition_reaches_of_run
    (h : (Facet.filter.run (Backend.ofDialect v) r).run q = (.ok (), q'))
    (hq : q.condition = .literal (.bool true)) :
    ∃ condition, q' = { q with condition } ∧ (∀ name ∈ condition.names, r.MayFilterBy name) ∧
      ∀ e ∈ condition.operands, ∃ l, e = .literal l := by
  rcases run_ok h hq with ⟨-, rfl⟩ | ⟨-, ps, es, hps, hperm, hes, rfl⟩
  · exact ⟨_, rfl, by rw [hq]; exact List.forall_mem_nil _, by rw [hq]; exact List.forall_mem_nil _⟩
  · refine ⟨_, rfl, fun name hn => ?_, fun x hx => ?_⟩
    · -- The condition that names it comes from a predicate that was checked.
      rw [Expr.names_all] at hn
      obtain ⟨e, he, hn⟩ := List.mem_flatMap.mp hn
      obtain ⟨-, -, p, hp, -, ha⟩ := exists_left_of_mem hes he
      rw [ha.eq_field_of_mem_names hn]
      exact mayFilterBy_of_requested hps hperm hp
    · rw [Expr.operands_all] at hx
      obtain ⟨e, he, hx⟩ := List.mem_flatMap.mp hx
      obtain ⟨-, -, p, -, -, ha⟩ := exists_left_of_mem hes he
      exact ha.exists_literal_of_mem_operands hx

/-- The run of the sort adds keys for fields that may be sorted by. -/
theorem Sort.orderBy_reaches_of_run
    (h : (Facet.sort.run (Backend.ofDialect v) r).run q = (.ok (), q')) (hq : q.orderBy = []) :
    ∃ orderBy, q' = { q with orderBy } ∧
      ∀ key ∈ orderBy, ∃ f, key.target = .column f.field ∧ r.MaySortBy f := by
  rcases run_ok h with ⟨-, rfl⟩ | ⟨-, hc, fs, hflat, rfl⟩
  · exact ⟨_, rfl, by rw [hq]; exact List.forall_mem_nil _⟩
  · refine ⟨_, rfl, fun k hk => ?_⟩
    rw [hq, List.nil_append] at hk
    obtain ⟨f, hf, rfl⟩ := List.mem_map.mp hk
    refine ⟨f, rfl, ?_⟩
    unfold Request.MaySortBy
    split
    · next value hp =>
        obtain ⟨gs, hgs, hg, hperm⟩ := flat_of_validate hp hc
        obtain rfl : fs = gs := eq_of_map_ofField_eq (hflat.symm.trans hg)
        exact ⟨⟨fs, hgs, hf⟩, hperm f hf⟩
    · next hp =>
        have hmem : ofField f ∈ flat r := hflat ▸ List.mem_map_of_mem hf
        obtain ⟨g, hg, he⟩ := mem_flat_default hp hmem
        exact ofField_injective he ▸ hg

namespace Request

/-- Where the schema lists the fields that requests may filter by, those of a request are in the
list, whatever its values say. -/
theorem Reaches.mem_of_filter_only {names : List String} (h : r.Reaches table q)
    (hp : (r.param? Filter.parameter).isSome = true)
    (hfields : r.schema.filter.fields = .only names) {name : String}
    (hname : name ∈ q.condition.names) : name ∈ names := by
  obtain ⟨v, hv⟩ := Option.isSome_iff_exists.mp hp
  obtain ⟨-, hallowed⟩ := h.condition name hname
  simp only [hv, hfields] at hallowed
  exact Fields.allows_only.mp hallowed

/-- So are those that it sorts by. -/
theorem Reaches.mem_of_sort_only {names : List String} (h : r.Reaches table q)
    (hp : (r.param? Sort.parameter).isSome = true) (hfields : r.schema.sort.fields = .only names)
    {key : SortKey} (hkey : key ∈ q.orderBy) : ∃ name ∈ names, key.target = .column name := by
  obtain ⟨v, hv⟩ := Option.isSome_iff_exists.mp hp
  obtain ⟨f, htarget, hf⟩ := h.orderBy key hkey
  simp only [MaySortBy, hv, hfields] at hf
  exact ⟨f.field, Fields.allows_only.mp hf.2.2, htarget⟩

/-- Filters and sorts by columns that the schema permits; the values spell other columns. -/
def narrow : Request where
  params :=
    [("filter", .object [("name", .object [("in", .array [.string "secret", .string "name"])])]),
     ("sort", .string "-name")]
  schema :=
    { Schema.standard with
      filter := ⟨true, .only ["name"], []⟩
      sort := ⟨true, .only ["name", "at"], [⟨"at", .desc⟩]⟩ }

/-- What `narrow` asks of the table `t`. -/
def narrowQuery : Select where
  columns := none
  source := some ⟨none, "t"⟩
  condition := .member (.column "name") false
    [.literal (.string "secret"), .literal (.string "name")]
  orderBy := [⟨.column "name", .desc⟩]
  limit := ⟨some 20, some 0⟩

theorem query_narrow : narrow.query .sql (.ofTable "t") = .ok narrowQuery := by decide +kernel

/-- **The columns of a query** are those that the request names in its filter and its sort, as far
as the schema permits them there, or those of the schema's defaults.  No other text of the request
becomes a name. -/
theorem reaches_of_query (h : r.query (Backend.ofDialect v) (.ofTable table) = .ok q) :
    r.Reaches table q := by
  obtain ⟨q₁, q₂, hfilter, hsort, hpage⟩ := query_ok_iff.mp h
  obtain ⟨condition, rfl, hnames, hoperands⟩ := Filter.condition_reaches_of_run hfilter rfl
  obtain ⟨orderBy, rfl, hkeys⟩ := Sort.orderBy_reaches_of_run hsort rfl
  -- Limits name nothing, so it does not matter whether there are any.
  rcases Paging.run_ok hpage with ⟨-, rfl⟩ | ⟨-, n, -, rfl⟩
  · exact ⟨rfl, rfl, hnames, hoperands, hkeys⟩
  · exact ⟨rfl, rfl, hnames, hoperands, hkeys⟩

theorem reaches_of_query_narrow :
    narrow.query .sql (.ofTable "t") = .ok narrowQuery ∧ narrow.Reaches "t" narrowQuery :=
  ⟨query_narrow, reaches_of_query (v := .full) query_narrow⟩

end Request

end FacetQuery
