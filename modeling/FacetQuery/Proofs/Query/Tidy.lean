import FacetQuery.Proofs.Params.Tidy
import FacetQuery.Proofs.Query.Columns

/-!
# Query — What no query string can ask for

The parameters of a query string are tidy, so a query made from one has no column without a name,
and no condition that is decided before there is any row.

* `Sql.Expr.conjuncts`: the conditions that are joined by `and`.
* `Filter.ne_constant_of_asked`: a predicate with a tidy value is not turned into a constant.
* `Params.Tidies query`: what is ruled out in the parameters of a query string, and in the queries
  that are made from it; `Params.tidies`: this holds of every query string.
-/

namespace FacetQuery

open Json Params Sql

/-! ### Conditions -/

/-- `conjuncts e` are the conditions that `e` joins by `and`. -/
def Sql.Expr.conjuncts : Expr → List Expr
  | .and left right => left.conjuncts ++ right.conjuncts
  | e               => [e]

/-- `columnNames q` are the names of columns in `q`, wherever they stand. -/
def Sql.Select.columnNames (q : Select) : List String :=
  q.columns.getD [] ++ q.condition.names ++ q.orderBy.flatMap (·.target.names)

namespace Sql.Expr

/-- Conditions joined one by one are the conjuncts of all of them, in order. -/
theorem conjuncts_foldl_and (e : Expr) (es : List Expr) :
    (es.foldl .and e).conjuncts = e.conjuncts ++ es.flatMap conjuncts := by
  induction es generalizing e with
  | nil => simp
  | cons e' es ih => rw [List.foldl_cons, ih, conjuncts, List.flatMap_cons, List.append_assoc]

/-- What conditions together ask for is asked by one of them, or is nothing. -/
theorem mem_conjuncts_all {e : Expr} {es : List Expr} (h : e ∈ (all es).conjuncts) :
    e = .literal (.bool true) ∨ ∃ e' ∈ es, e ∈ e'.conjuncts := by
  cases es with
  | nil => exact .inl (List.mem_singleton.mp h)
  | cons e' es =>
      rw [all, conjuncts_foldl_and, ← List.flatMap_cons] at h
      exact .inr (List.mem_flatMap.mp h)

end Sql.Expr

/-- What a predicate asks for is one condition. -/
theorem Predicate.Asks.conjuncts_eq {p : Predicate} {e : Expr} (h : p.Asks e) :
    e.conjuncts = [e] := by
  cases h <;> rfl

/-- It is a constant only for an empty list. -/
theorem Predicate.Asks.value_eq_of_constant {p : Predicate} {b : Bool} (h : p.Asks (.constant b)) :
    p.value = .array [] := by
  generalize he : Expr.constant b = e at h
  cases h with
  | memberOfNone => rfl
  | _ => cases he

/-! ### Filters -/

namespace Filter

/-- The entries of a tidy filter have tidy values, and fields with names, since neither keys nor
lists are empty in it. -/
theorem tidy_of_mem_entriesOf {fields : Dictionary Value} (h : Tidy (.object fields)) {x : Entry}
    (hx : x ∈ entriesOf fields) : x.field ≠ "" ∧ Tidy x.value := by
  obtain ⟨m, hm, hx⟩ := List.mem_flatMap.mp hx
  cases h with
  | object hne hkeys hvalues =>
      refine ⟨field_of_mem_entriesAt hx ▸ hkeys m hm, ?_⟩
      obtain ⟨k, c⟩ := m
      have hc : Tidy c := hvalues _ hm
      cases c with
      | object operators =>
          obtain ⟨o, ho, rfl⟩ := List.mem_map.mp hx
          cases hc with
          | object _ _ hvalues => exact hvalues o ho
      | _ => exact List.mem_singleton.mp hx ▸ hc

theorem tidy_of_mem_asked {r : Request} {value : Value} (hp : r.param? parameter = some value)
    (htidy : Tidy value) {x : Entry} (hx : x ∈ asked r) : x.field ≠ "" ∧ Tidy x.value := by
  rw [asked, hp] at hx
  cases value with
  | object fields => exact tidy_of_mem_entriesOf htidy hx
  | _ => exact absurd hx List.not_mem_nil

variable {v : Validator} {r : Request} {q q' : Select}

/-- **No condition of such a filter is a constant.** Only an empty list would give one, and a tidy
value is none. -/
theorem constant_notMem_of_run {value : Value} (hp : r.param? parameter = some value)
    (htidy : Tidy value)
    (h : (Facet.filter.run (Backend.ofDialect v) r).run q = (.ok (), q'))
    (hq : q.condition = .literal (.bool true)) (b : Bool) :
    Expr.constant b ∉ q'.condition.conjuncts := by
  intro hb
  rcases run_ok h hq with ⟨-, rfl⟩ | ⟨-, ps, es, hps, -, hes, rfl⟩
  · rw [hq] at hb
    cases List.mem_singleton.mp hb
  · rcases Expr.mem_conjuncts_all hb with hb | ⟨e, he, hb⟩
    · cases hb
    · obtain ⟨-, -, p, hmem, -, ha⟩ := exists_left_of_mem hes he
      rw [ha.conjuncts_eq, List.mem_singleton] at hb
      have hx : entry p ∈ asked r := map_entry_of_requested hps ▸ List.mem_map_of_mem hmem
      have hvalue : Tidy p.value := (tidy_of_mem_asked hp htidy hx).2
      have hempty : p.value = .array [] := Predicate.Asks.value_eq_of_constant (hb ▸ ha)
      rw [hempty] at hvalue
      cases hvalue with
      | array hne => exact hne rfl

/-- A column that may be filtered by has a name, if those of the schema's own filter have. -/
theorem ne_empty_of_mayFilterBy (hparam : ∀ value, r.param? parameter = some value → Tidy value)
    (hdefault : ∀ name ∈ Dictionary.keys r.schema.filter.default, name ≠ "") {name : String}
    (h : r.MayFilterBy name) : name ≠ "" := by
  obtain ⟨⟨x, hx, rfl⟩, hmay⟩ := h
  split at hmay
  · next value hp => exact (tidy_of_mem_asked hp (hparam value hp) hx).1
  · exact hdefault _ hmay

end Filter

theorem Sort.ne_empty_of_maySortBy {r : Request}
    (hdefault : ∀ f ∈ r.schema.sort.default, f.field ≠ "") {f : SortField} (h : r.MaySortBy f) :
    f.field ≠ "" := by
  unfold Request.MaySortBy at h
  split at h
  · exact h.2.1
  · exact hdefault f h

/-! ### Query strings -/

namespace Params

/-- `Tidies query` says what there is neither in the parameters of a query string nor in a query
that is made from it. -/
structure Tidies (query : String) : Prop where
  values : ∀ m ∈ read query, m.1 ≠ "" ∧ Tidy m.2
  /-- The parameters as a whole are an empty object only if there is nothing to put in. -/
  parameters : read query = [] ↔ pairs query = []
  /-- Every column has a name, if those of the schema have. -/
  columns : ∀ schema : Schema, (∀ name ∈ Dictionary.keys schema.filter.default, name ≠ "") →
    (∀ f ∈ schema.sort.default, f.field ≠ "") → ∀ (v : Validator) (table : String) (q : Select),
      Request.query ⟨read query, schema⟩ (.ofDialect v) (.ofTable table) = .ok q →
        "" ∉ q.columnNames
  /-- A filter that is the request's has no condition that is a constant. -/
  conditions : (Dictionary.find? Filter.parameter (read query)).isSome →
    ∀ (schema : Schema) (v : Validator) (table : String) (q : Select),
      Request.query ⟨read query, schema⟩ (.ofDialect v) (.ofTable table) = .ok q →
        ∀ b, Expr.constant b ∉ q.condition.conjuncts

theorem tidy_of_param {query name : String} {schema : Schema} {value : Value}
    (h : (⟨read query, schema⟩ : Request).param? name = some value) : Tidy value :=
  (tidy_of_mem_read _ (Dictionary.mem_of_find? h)).2

/-- **Every query string is tidy**, and so are the queries that are made from it, if the names in
the schema's defaults are none that are empty. -/
theorem tidies (query : String) : Tidies query where
  values := tidy_of_mem_read
  parameters := read_eq_nil_iff
  columns schema hfilter hsort v table q h := by
    obtain ⟨q₁, q₂, hq₁, hq₂, hq⟩ := Request.query_ok_iff.mp h
    obtain ⟨condition, rfl, hnames, -⟩ := Filter.condition_reaches_of_run hq₁ rfl
    obtain ⟨orderBy, rfl, hkeys⟩ := Sort.orderBy_reaches_of_run hq₂ rfl
    have hcolumns : "" ∉ condition.names ++ orderBy.flatMap (·.target.names) := by
      intro hmem
      rcases List.mem_append.mp hmem with hmem | hmem
      · have hmay := hnames "" hmem
        exact Filter.ne_empty_of_mayFilterBy (fun _ => tidy_of_param) hfilter hmay rfl
      · obtain ⟨key, hkey, hmem⟩ := List.mem_flatMap.mp hmem
        obtain ⟨f, htarget, hmay⟩ := hkeys key hkey
        rw [htarget] at hmem
        exact Sort.ne_empty_of_maySortBy hsort hmay (List.mem_singleton.mp hmem).symm
    -- The page adds no column.
    rcases Paging.run_ok hq with ⟨-, rfl⟩ | ⟨-, n, -, rfl⟩
    · exact hcolumns
    · exact hcolumns
  conditions hsome schema v table q h b := by
    obtain ⟨value, hvalue⟩ := Option.isSome_iff_exists.mp hsome
    obtain ⟨q₁, q₂, hq₁, hq₂, hq⟩ := Request.query_ok_iff.mp h
    have hparam : (⟨read query, schema⟩ : Request).param? Filter.parameter = some value := hvalue
    have hconstant := Filter.constant_notMem_of_run hparam (tidy_of_param hparam) hq₁ rfl b
    obtain ⟨condition, rfl, -, -⟩ := Filter.condition_reaches_of_run hq₁ rfl
    obtain ⟨orderBy, rfl, -⟩ := Sort.orderBy_reaches_of_run hq₂ rfl
    rcases Paging.run_ok hq with ⟨-, rfl⟩ | ⟨-, n, -, rfl⟩
    · exact hconstant
    · exact hconstant

/-- Filters by a list of two items, the last of them empty, and sorts by a field. -/
def spread : String := "filter[a][not in][]=1&filter[a][not in][]=&sort=-b"

/-- What `spread` asks of the table `t`. -/
def spreadQuery : Select :=
  { Select.ofTable "t" with
    condition := .member (.column "a") true [.literal (.int 1), .literal (.string "")]
    orderBy := [⟨.column "b", .desc⟩]
    limit := ⟨some 20, some 0⟩ }

theorem query_spread :
    Request.query ⟨read spread, .standard⟩ .sql (.ofTable "t") = .ok spreadQuery := by
  have hread : read spread =
      [("filter", .object [("a", .object [("not in", .array [.ofUInt64 1, .string ""])])]),
       ("sort", .string "-b")] := by decide +kernel
  rw [hread]
  decide +kernel

/-- The last item of the list is a text without characters, and no column is named like that. -/
theorem tidies_spread :
    (Dictionary.find? Filter.parameter (read spread)).isSome ∧
      Request.query ⟨read spread, .standard⟩ .sql (.ofTable "t") = .ok spreadQuery ∧
      "" ∉ spreadQuery.columnNames ∧ ∀ b, Expr.constant b ∉ spreadQuery.condition.conjuncts := by
  have hsome : (Dictionary.find? Filter.parameter (read spread)).isSome := by decide +kernel
  exact ⟨hsome, query_spread,
    (tidies spread).columns .standard (by decide) (by decide) .full "t" spreadQuery query_spread,
    (tidies spread).conditions hsome .standard .full "t" spreadQuery query_spread⟩

end Params

end FacetQuery
