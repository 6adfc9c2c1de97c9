import FacetQuery.Proofs.Facet.Basic
import FacetQuery.Proofs.Facet.Filter
import FacetQuery.Proofs.Facet.Paging
import FacetQuery.Proofs.Facet.Sort

/-!
# Query — What a request asks for

`Request.Asks r table q` reads the query `q` off the values of the request `r`, or off the defaults
of its schema, without listing, keying or collecting anything: one condition an entry of the
filter, one key a field of the sort, the rows of the page.

* `Request.Asks.unique`: a request asks for one query at most.
* `Request.asks_of_query`, `Request.asks_iff_of_query`: the query that a well-formed request is
  turned into is the one that it asks for.  The default sort must not name a field twice, for it is
  collected by field, and the second mention would vanish.
-/

namespace FacetQuery

open Json Sql

/-- `Asks x e` says that `e` is the condition that an entry of a filter asks for: that of the
entry's own operator, on its column and with its value. -/
def Filter.Entry.Asks (x : Filter.Entry) (e : Expr) : Prop :=
  ∃ op : Operator, op.name = x.name ∧ Predicate.Asks ⟨x.field, op, x.value⟩ e

/-- An entry asks for one condition, as its operator is told by its name. -/
theorem Filter.Entry.rightUnique_asks : Relator.RightUnique Filter.Entry.Asks := by
  rintro x e e' ⟨op, hop, he⟩ ⟨op', hop', he'⟩
  -- No two operators have one name.
  have hs : some op = some op' := by
    rw [← Operator.ofName?_name op, ← Operator.ofName?_name op', hop, hop']
  cases hs
  exact he.unique he'

namespace Request

/-- `Asks r table q` says that `q` is the query that `r` asks of a table.  A facet that is switched
off asks for nothing. -/
structure Asks (r : Request) (table : String) (q : Select) : Prop where
  columns : q.columns = none
  source : q.source = some ⟨none, table⟩
  /-- One condition an entry, joined by `and` in their order. -/
  condition : ∃ es, q.condition = .all es ∧
    List.Forall₂ Filter.Entry.Asks (if r.schema.filter.isEnabled then Filter.asked r else []) es
  /-- One key a field, in their order. -/
  orderBy : ∃ fs : List SortField, q.orderBy = fs.map (fun f => ⟨.column f.field, f.order⟩) ∧
    if r.schema.sort.isEnabled then Sort.Asked r fs else fs = []
  /-- The schema's number of rows, behind those of the pages before. -/
  limit : if r.schema.page.isEnabled then
      ∃ n offset : UInt64, q.limit = ⟨some r.schema.page.defaultSize, some offset⟩ ∧
        Paging.Asked r n ∧
        offset.toNat = min ((n.toNat - 1) * r.schema.page.defaultSize.toNat) (UInt64.size - 1)
    else q.limit = ⟨none, none⟩

/-- **A request asks for one query at most.** Its parts follow from the entries, the fields and the
page, and each of these is unique. -/
theorem Asks.unique {r : Request} {table : String} {q q' : Select} (h : r.Asks table q)
    (h' : r.Asks table q') : q = q' := by
  have hcondition : q.condition = q'.condition := by
    obtain ⟨es, he, hes⟩ := h.condition
    obtain ⟨es', he', hes'⟩ := h'.condition
    rw [he, he', List.right_unique_forall₂' Filter.Entry.rightUnique_asks hes hes']
  have horder : q.orderBy = q'.orderBy := by
    obtain ⟨fs, hf, hfs⟩ := h.orderBy
    obtain ⟨fs', hf', hfs'⟩ := h'.orderBy
    have he : fs = fs' := by
      by_cases hs : r.schema.sort.isEnabled = true
      · rw [if_pos hs] at hfs hfs'
        exact Sort.Asked.unique hfs hfs'
      · rw [if_neg hs] at hfs hfs'
        exact hfs.trans hfs'.symm
    rw [hf, hf', he]
  have hlimit : q.limit = q'.limit := by
    have hl := h.limit
    have hl' := h'.limit
    by_cases hp : r.schema.page.isEnabled = true
    · rw [if_pos hp] at hl hl'
      obtain ⟨n, o, hq, hn, ho⟩ := hl
      obtain ⟨n', o', hq', hn', ho'⟩ := hl'
      cases hn.unique hn'
      have hoff : o = o' := UInt64.toNat_inj.mp (ho.trans ho'.symm)
      rw [hq, hq', hoff]
    · rw [if_neg hp] at hl hl'
      rw [hl, hl']
  -- All five parts agree.
  obtain ⟨columns, source, condition, orderBy, limit⟩ := q
  obtain ⟨columns', source', condition', orderBy', limit'⟩ := q'
  cases h.columns.trans h'.columns.symm
  cases h.source.trans h'.source.symm
  cases hcondition
  cases horder
  cases hlimit
  rfl

end Request

/-! ### Facet by facet -/

variable {v : Validator} {r : Request} {q q' : Select}

/-- The filter adds one condition an entry to a query without any, in the order of the entries,
those of the schema if the request has none. -/
theorem Filter.condition_of_run (hr : r.WellFormed)
    (h : (Facet.filter.run (Backend.ofDialect v) r).run q = (.ok (), q'))
    (hq : q.condition = .literal (.bool true)) :
    ∃ es, q' = { q with condition := .all es } ∧
      List.Forall₂ Entry.Asks (if r.schema.filter.isEnabled then asked r else []) es := by
  rcases run_ok h hq with ⟨hoff, rfl⟩ | ⟨hon, ps, es, hps, -, hes, rfl⟩
  · refine ⟨[], ?_, by rw [hoff]; exact .nil⟩
    rw [Expr.all, ← hq]
  · refine ⟨es, rfl, ?_⟩
    rw [flat_eq_map hr hps, List.forall₂_map_left_iff] at hes
    rw [hon, if_pos rfl, ← map_entry_of_requested hps, List.forall₂_map_left_iff]
    refine hes.imp fun p e hpe => ?_
    obtain ⟨p', -, heq, he⟩ := hpe
    -- Two predicates under one key with one value are the same.
    obtain ⟨hkey, hvalue⟩ := Prod.mk.inj heq
    have hread := ofFlat?_flatKey p'
    rw [← hkey, ← hvalue, ofFlat?_flatKey] at hread
    cases hread
    exact ⟨p.op, rfl, he⟩

/-- The sort adds one key a field, in order. For the schema's sort this needs that no field comes
twice. -/
theorem Sort.orderBy_of_run
    (hs : r.schema.sort.isEnabled = true → r.param? parameter = none →
      (r.schema.sort.default.map (·.field)).Nodup)
    (h : (Facet.sort.run (Backend.ofDialect v) r).run q = (.ok (), q')) :
    ∃ fs : List SortField, q' = { q with orderBy := q.orderBy ++ fs.map key } ∧
      if r.schema.sort.isEnabled then Asked r fs else fs = [] := by
  rcases run_ok h with ⟨hoff, rfl⟩ | ⟨hon, hc, fs, hflat, rfl⟩
  · refine ⟨[], ?_, by rw [hoff, if_neg Bool.false_ne_true]⟩
    rw [List.map_nil, List.append_nil]
  · refine ⟨fs, rfl, ?_⟩
    rw [hon, if_pos rfl, Asked]
    cases hp : r.param? parameter with
    | some value =>
        obtain ⟨gs, hgs, hg, -⟩ := flat_of_validate hp hc
        exact eq_of_map_ofField_eq (hflat.symm.trans hg) ▸ hgs
    | none =>
        have hg := flat_default hp (hs hon hp)
        exact eq_of_map_ofField_eq (hflat.symm.trans hg)

/-! ### The whole query -/

namespace Request

/-- **What a request is turned into** is what it asks for. Facet by facet, each on what the one
before it has left. -/
theorem asks_of_query {table : String} (hr : r.WellFormed)
    (hs : r.schema.sort.isEnabled = true → r.param? Sort.parameter = none →
      (r.schema.sort.default.map (·.field)).Nodup)
    (h : r.query (Backend.ofDialect v) (.ofTable table) = .ok q) : r.Asks table q := by
  obtain ⟨q₁, q₂, hfilter, hsort, hpage⟩ := query_ok_iff.mp h
  obtain ⟨es, rfl, hes⟩ := Filter.condition_of_run hr hfilter rfl
  obtain ⟨fs, rfl, hfs⟩ := Sort.orderBy_of_run hs hsort
  -- The page does not touch what the filter and the sort have left.
  rcases Paging.run_ok hpage with ⟨hoff, rfl⟩ | ⟨hon, n, hn, rfl⟩
  · exact ⟨rfl, rfl, ⟨es, rfl, hes⟩, ⟨fs, List.nil_append _, hfs⟩,
      by rw [hoff, if_neg Bool.false_ne_true]; rfl⟩
  · refine ⟨rfl, rfl, ⟨es, rfl, hes⟩, ⟨fs, List.nil_append _, hfs⟩, ?_⟩
    rw [hon, if_pos rfl]
    exact ⟨n, _, rfl, hn, Page.toNat_offset _ _⟩

/-- Filters by three entries, sorts by two fields and takes the third page. -/
def wide : Request where
  params :=
    [("filter", .object
        [("id", .object [("in", .array [.ofUInt64 1, .string "x"]), ("is not", .null)]),
         ("a:b", .string "it's")]),
     ("sort", .string " -id ,, at"),
     ("page", .ofUInt64 3)]
  schema := { Schema.standard with sort := ⟨true, .any, [⟨"at", .desc⟩, ⟨"id", .asc⟩]⟩ }

/-- What `wide` asks of the table `t`. -/
def wideQuery : Select where
  columns := none
  source := some ⟨none, "t"⟩
  condition := .and
    (.and (.member (.column "id") false [.literal (.int 1), .literal (.string "x")])
      (.isNull (.column "id") true))
    (.compare (.column "a:b") .equal (.literal (.string "it's")))
  orderBy := [⟨.column "id", .desc⟩, ⟨.column "at", .asc⟩]
  limit := ⟨some 20, some 40⟩

/-- Leaves the filter and the sort to the schema, which has no filter and sorts by two fields. -/
def unsorted : Request :=
  { wide with params := [("page", .ofUInt64 3)] }

/-- What `unsorted` asks of the table `t`. -/
def unsortedQuery : Select :=
  { wideQuery with
    condition := .literal (.bool true)
    orderBy := [⟨.column "at", .desc⟩, ⟨.column "id", .asc⟩] }

theorem wellFormed_wide : wide.WellFormed where
  params := by simp [wide, Dictionary.keys, Value.ofUInt64]
  defaultFilter := by simp [wide, Schema.standard, FilterSchema.standard, Dictionary.keys]

theorem query_wide : wide.query .sql (.ofTable "t") = .ok wideQuery := by decide +kernel

theorem wellFormed_unsorted : unsorted.WellFormed where
  params := by simp [unsorted, Dictionary.keys, Value.ofUInt64]
  defaultFilter := wellFormed_wide.defaultFilter

theorem query_unsorted : unsorted.query .sql (.ofTable "t") = .ok unsortedQuery := by decide +kernel

/-- **The query of a request** is the one that its values ask for, and there is no other: being
asked for determines it. -/
theorem asks_iff_of_query {table : String} (hr : r.WellFormed)
    (hs : r.schema.sort.isEnabled = true → r.param? Sort.parameter = none →
      (r.schema.sort.default.map (·.field)).Nodup)
    (h : r.query (Backend.ofDialect v) (.ofTable table) = .ok q) :
    r.Asks table q' ↔ q' = q :=
  ⟨fun h' => h'.unique (asks_of_query hr hs h), fun e => e ▸ asks_of_query hr hs h⟩

/-- One request sorts by itself, and one leaves it to the schema, whose fields are distinct. Both
are turned into what they ask for. -/
theorem asks_iff_of_query_wide :
    (wide.WellFormed ∧ (wide.schema.sort.default.map (·.field)).Nodup ∧
        wide.query .sql (.ofTable "t") = .ok wideQuery ∧
        ∀ q, wide.Asks "t" q ↔ q = wideQuery) ∧
      (unsorted.WellFormed ∧ (unsorted.schema.sort.default.map (·.field)).Nodup ∧
        unsorted.query .sql (.ofTable "t") = .ok unsortedQuery ∧
        ∀ q, unsorted.Asks "t" q ↔ q = unsortedQuery) := by
  have hs : (wide.schema.sort.default.map (·.field)).Nodup := by decide
  refine ⟨⟨wellFormed_wide, hs, query_wide, fun _ => ?_⟩,
    ⟨wellFormed_unsorted, hs, query_unsorted, fun _ => ?_⟩⟩
  · exact asks_iff_of_query (v := .full) wellFormed_wide (fun _ _ => hs) query_wide
  · exact asks_iff_of_query (v := .full) wellFormed_unsorted (fun _ _ => hs) query_unsorted

end Request

end FacetQuery
