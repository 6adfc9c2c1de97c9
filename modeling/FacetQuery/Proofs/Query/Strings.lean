import FacetQuery.Proofs.Facet.Strings
import FacetQuery.Proofs.Query.Asked
import FacetQuery.Proofs.Query.Columns
import FacetQuery.Proofs.Sql.Styles

/-!
# Query — The strings of a request

The strings in a filter end up as the parameters of the query and nowhere else, and no step on the
way looks into one.

* `Request.places r`: the places of the strings that become parameters, entry by entry.
* `Request.params_of_query`: the parameters of a query are the strings at these places.
* `Request.muted r`: the request without what its filter's strings say; `Request.Parallel`: two
  queries that differ in parameters only, each with those of its own request.
* `Request.parallel_of_muted_eq`: requests that are one when muted have such queries.
-/

namespace FacetQuery

open Json Sql

/-! ### Places -/

/-- `stringsIn vs` are the numbers of the strings in a list. -/
def Json.Value.stringsIn (vs : List Value) : List Nat :=
  vs.zipIdx.filterMap fun item => item.1.asString?.map fun _ => item.2

/-- `places c v` says which strings of `v` the conditions of operators of the class `c` are made of:
`none` is the value itself, `some j` its item `j`.  A test for null has no use for its value, nor a
range for what is behind its bounds. -/
def OperatorClass.places : OperatorClass → Value → List (Option Nat)
  | .setMembership, .array vs => (Value.stringsIn vs).map some
  | .range, .array vs         => (Value.stringsIn (vs.take 2)).map some
  | .equality, .string _      => [none]
  | .comparison, .string _    => [none]
  | .pattern, .string _       => [none]
  | _, _                      => []

namespace Filter.Entry

/-- `places x` are the places of the strings that the condition of `x` is made of. -/
def places (x : Entry) : List (Option Nat) :=
  (Operator.ofName? x.name).elim [] fun op => op.cls.places x.value

/-- `textAt? x place` is the string at a place of the value of `x`. -/
def textAt? (x : Entry) : Option Nat → Option String
  | none   => x.value.asString?
  | some j => (x.value.asArray?.bind (·[j]?)).bind Value.asString?

end Filter.Entry

/-- A place in a filter: the number of an entry, and a place in the entry's value. -/
structure Filter.Place where
  entry : Nat
  item : Option Nat

/-- `places xs` are the places of all entries, entry by entry. -/
def Filter.places (xs : List Filter.Entry) : List Filter.Place :=
  xs.zipIdx.flatMap fun x => x.1.places.map fun item => ⟨x.2, item⟩

namespace Request

/-- `places r` are the places of the strings that the query of `r` is made of. -/
def places (r : Request) : List Filter.Place :=
  Filter.places (if r.schema.filter.isEnabled then Filter.asked r else [])

/-- `textAt? r place` is the string at a place of the filter that holds for `r`. -/
def textAt? (r : Request) (place : Filter.Place) : Option String :=
  (Filter.asked r)[place.entry]?.bind (·.textAt? place.item)

end Request

/-! ### Reading at places -/

/-- The strings of a list are read in any list that begins with it. -/
theorem Json.Value.map_stringsIn {vs ws : List Value} (h : vs <+: ws) :
    (stringsIn vs).map (fun j => ws[j]?.bind asString?) = (vs.filterMap asString?).map some := by
  have read (x : Value × Nat) (hx : x ∈ vs.zipIdx) :
      x.1.asString?.map (fun _ => ws[x.2]?.bind asString?) = x.1.asString?.map some := by
    obtain ⟨hj, hv⟩ := List.getElem?_eq_some_iff.mp (List.mem_zipIdx_iff_getElem?.mp hx)
    rw [List.prefix_iff_getElem?.mp h x.2 hj, hv, Option.bind_some]
    cases x.1.asString? <;> rfl
  rw [stringsIn, List.map_filterMap, List.map_filterMap]
  simp only [Option.map_map]
  rw [← List.zipIdx_map_fst 0 vs, List.filterMap_map, List.zipIdx_map_fst]
  exact List.filterMap_congr read

/-- A value is a string in SQL if it is one in the request. -/
theorem Sql.Literal.string?_of_ofValue {v : Value} {l : Literal} (h : Literal.ofValue v = .ok l) :
    (Expr.literal l).string? = v.asString? := by
  cases v with
  | number n =>
      cases h
      cases n with
      | whole i => rw [Literal.ofNumber]; split <;> rfl
      | real x _ => rfl
  | array _ | object _ => cases h
  | _ => cases h; rfl

theorem Sql.Expr.filterMap_string?_map_literal {vs : List Value} {ls : List Literal}
    (h : List.Forall₂ (fun v l => Literal.ofValue v = .ok l) vs ls) :
    (ls.map Expr.literal).filterMap Expr.string? = vs.filterMap Value.asString? := by
  induction h with
  | nil => rfl
  | cons hv _ ih =>
      rw [List.map_cons, List.filterMap_cons, List.filterMap_cons,
        Literal.string?_of_ofValue hv, ih]

namespace Filter.Entry

/-- The strings of a condition are those at the places of its entry. Operator by operator: a value,
the items of a list, or two bounds. -/
theorem map_strings_of_asks {x : Entry} {e : Expr} (h : x.Asks e) :
    e.strings.map some = x.places.map x.textAt? := by
  obtain ⟨field, name, value⟩ := x
  obtain ⟨op, rfl, he⟩ := h
  rw [places, Operator.ofName?_name, Option.elim]
  cases he with
  | @compare _ _ l c hl =>
      have hstring : (Expr.literal l).string? = value.asString? := Literal.string?_of_ofValue hl
      have hstrings : (Expr.compare (.column field) c (.literal l)).strings
          = value.asString?.toList := by
        rw [← hstring]
        cases l <;> rfl
      rw [hstrings]
      cases value <;> cases c <;> rfl
  | isNull negated => cases negated <;> rfl
  | @member _ vs ls negated _ hls =>
      have hstrings : (Expr.member (.column field) negated (ls.map .literal)).strings
          = vs.filterMap Value.asString? := by
        rw [Expr.strings, Expr.leaves, Expr.leavesOfEach_map_literal, List.filterMap_append,
          Expr.filterMap_string?_map_literal hls]
        rfl
      have hplaces : (if negated then Operator.isNotIn else .isIn).cls.places (.array vs)
          = (Value.stringsIn vs).map some := by
        cases negated <;> rfl
      rw [hstrings, hplaces, List.map_map, ← Value.map_stringsIn List.prefix_rfl]
      rfl
  | memberOfNone negated => cases negated <;> rfl
  | @between _ low high more l h negated hl hh =>
      have hbounds := Expr.filterMap_string?_map_literal (.cons hl (.cons hh .nil))
      have hstrings : (Expr.between (.column field) negated (.literal l) (.literal h)).strings
          = [low, high].filterMap Value.asString? := hbounds ▸ rfl
      have hplaces : (if negated then Operator.notBetween else .between).cls.places
          (.array (low :: high :: more)) = (Value.stringsIn [low, high]).map some := by
        cases negated <;> rfl
      -- The bounds are the first two items, so their places are those in the whole list.
      have hread := Value.map_stringsIn (List.prefix_append [low, high] more)
      rw [hstrings, hplaces, List.map_map, ← hread]
      rfl

end Filter.Entry

/-- Reading all places of some entries is reading those of each entry in turn. -/
theorem Filter.map_places (xs : List Entry) :
    (places xs).map (fun place => xs[place.entry]?.bind (·.textAt? place.item))
      = xs.flatMap fun x => x.places.map x.textAt? := by
  have read (x : Entry × Nat) (hx : x ∈ xs.zipIdx) :
      x.1.places.map (fun item => xs[x.2]?.bind (·.textAt? item)) = x.1.places.map x.1.textAt? := by
    rw [List.mem_zipIdx_iff_getElem?.mp hx]
    rfl
  rw [places, List.map_flatMap]
  simp only [List.map_map]
  refine (List.flatMap_congr read).trans ?_
  rw [← List.flatMap_map Prod.fst fun x : Entry => x.places.map x.textAt?, List.zipIdx_map_fst]

/-- The strings of many conditions are those at the places of their entries, in order. -/
theorem Filter.map_flatMap_strings {xs : List Entry} {es : List Expr}
    (h : List.Forall₂ Entry.Asks xs es) :
    (es.flatMap Expr.strings).map some = xs.flatMap fun x => x.places.map x.textAt? := by
  induction h with
  | nil => rfl
  | cons hx _ ih =>
      rw [List.flatMap_cons, List.flatMap_cons, List.map_append, Entry.map_strings_of_asks hx, ih]

namespace Request

variable {v : Validator} {r r' : Request} {table : String} {q q' : Select}

/-- **The strings of a query** are those at the places of its request, in the order of the
filter. -/
theorem map_strings_of_query (hr : r.WellFormed)
    (h : r.query (Backend.ofDialect v) (.ofTable table) = .ok q) :
    q.strings.map some = r.places.map r.textAt? := by
  obtain ⟨q₁, q₂, hfilter, hsort, hpage⟩ := query_ok_iff.mp h
  obtain ⟨es, rfl, hes⟩ := Filter.condition_of_run hr hfilter rfl
  -- Neither the keys of the ordering nor the page add a string.
  have hkeys (fs : List SortField) :
      (fs.map Sort.key).flatMap (fun key => key.target.strings) = [] := by
    rw [List.flatMap_map]
    exact List.flatMap_eq_nil_iff.mpr fun _ _ => rfl
  have hstrings₂ : q₂.strings = es.flatMap Expr.strings := by
    rw [← Expr.strings_all]
    rcases Sort.run_ok hsort with ⟨-, rfl⟩ | ⟨-, -, fs, -, rfl⟩
    · exact List.append_nil _
    · rw [Select.strings, List.flatMap_append, hkeys]
      exact List.append_nil _
  have hstrings : q.strings = es.flatMap Expr.strings := by
    rcases Paging.run_ok hpage with ⟨-, rfl⟩ | ⟨-, n, -, rfl⟩
    · exact hstrings₂
    · exact hstrings₂
  rw [hstrings, Filter.map_flatMap_strings hes, places]
  cases hon : r.schema.filter.isEnabled with
  | false => rfl
  | true => exact (Filter.map_places _).symm

end Request

/-! ### Two requests -/

section Places

variable (g : String → String)

/-- Which items of a list are strings does not depend on what they say. -/
theorem Json.Value.stringsIn_map_mapStrings (vs : List Value) :
    stringsIn (vs.map (mapStrings g)) = stringsIn vs := by
  rw [stringsIn, stringsIn, List.zipIdx_map, List.filterMap_map]
  refine List.filterMap_congr fun x _ => ?_
  obtain ⟨v, j⟩ := x
  cases v <;> rfl

theorem OperatorClass.places_mapStrings (c : OperatorClass) (v : Value) :
    c.places (v.mapStrings g) = c.places v := by
  cases v with
  | array vs =>
      rw [Value.mapStrings_array]
      cases c <;> simp only [places, ← List.map_take, Value.stringsIn_map_mapStrings]
  | object ms => rw [Value.mapStrings_object]; cases c <;> rfl
  | _ => cases c <;> rfl

theorem Filter.Entry.places_mapStrings (x : Entry) : (x.mapStrings g).places = x.places := by
  simp only [places, Entry.mapStrings, OperatorClass.places_mapStrings]

/-- Where strings stand does not depend on what they say. -/
theorem Request.places_mapStrings {r : Request} (h : (r.param? Filter.parameter).isSome = true) :
    (r.mapStrings g).places = r.places := by
  have hschema : (r.mapStrings g).schema = r.schema := rfl
  rw [places, places, hschema, Filter.asked_mapStrings g h]
  split
  · simp only [Filter.places, List.zipIdx_map, List.flatMap_map, Prod.map,
      Filter.Entry.places_mapStrings, id]
  · rfl

end Places

namespace Request

/-- `muted r` is `r` without what the strings of its filter say. -/
def muted (r : Request) : Request := r.mapStrings fun _ => ""

/-- `Parallel r r' q q'` says that the queries of two requests differ in no more than their
parameters, and that these are the strings at the same places, each in its own request. -/
structure Parallel (r r' : Request) (q q' : Select) : Prop where
  text : q'.positional.text = q.positional.text
  length : q'.positional.params.length = q.positional.params.length
  left : q.positional.params.map some = r.places.map r.textAt?
  right : q'.positional.params.map some = r.places.map r'.textAt?

variable {v : Validator} {r r' : Request} {table : String} {q q' : Select}

/-- **The parameters of a query** are the strings at the places of its request, in this order. So a
request tells them without its query. -/
theorem params_of_query (hr : r.WellFormed)
    (h : r.query (Backend.ofDialect v) (.ofTable table) = .ok q) :
    q.positional.params.map some = r.places.map r.textAt? := by
  rw [q.positional_eq]
  exact map_strings_of_query hr h

/-- Requests that are one when muted have no filter, and then are the same, or have the strings that
matter at the same places. -/
theorem eq_or_places_of_muted_eq (h : r'.muted = r.muted) :
    r' = r ∨ (r.param? Filter.parameter).isSome = true ∧
      (r'.param? Filter.parameter).isSome = true ∧ r'.places = r.places := by
  have hparam : (r'.param? Filter.parameter).isSome = (r.param? Filter.parameter).isSome := by
    have hmuted := congrArg (fun r : Request => (r.param? Filter.parameter).isSome) h
    simpa only [muted, param?_mapStrings, Option.isSome_map] using hmuted
  cases hp : (r.param? Filter.parameter).isSome with
  | false =>
      rw [hp] at hparam
      have hmuted {r : Request} (hp : (r.param? Filter.parameter).isSome = false) : r.muted = r :=
        mapStrings_of_none _ (Option.isNone_iff_eq_none.mp (Option.isSome_eq_false_iff.mp hp))
      exact .inl ((hmuted hparam).symm.trans (h.trans (hmuted hp)))
  | true =>
      rw [hp] at hparam
      refine .inr ⟨rfl, hparam, ?_⟩
      rw [← places_mapStrings (fun _ => "") hp, ← places_mapStrings (fun _ => "") hparam]
      exact congrArg places h

/-- The outcomes of such requests differ in strings at most. -/
theorem map_query_eq_of_muted_eq (v : Validator) (table : String) (hr : r.WellFormed)
    (hr' : r'.WellFormed) (hp : (r.param? Filter.parameter).isSome = true)
    (hp' : (r'.param? Filter.parameter).isSome = true) (h : r'.muted = r.muted) :
    (r'.query (Backend.ofDialect v) (.ofTable table)).map (Select.relabel id fun _ => "")
      = (r.query (Backend.ofDialect v) (.ofTable table)).map (Select.relabel id fun _ => "") := by
  rw [← query_mapStrings _ v hr hp, ← query_mapStrings _ v hr' hp']
  exact congrArg (fun r : Request => r.query _ _) h

/-- `wide` with other strings in its filter. -/
def reworded : Request :=
  { wide with params :=
      [("filter", .object
          [("id", .object [("in", .array [.ofUInt64 1, .string "' or 1 = 1"]), ("is not", .null)]),
           ("a:b", .string "")]),
       ("sort", .string " -id ,, at"),
       ("page", .ofUInt64 3)] }

theorem wellFormed_reworded : reworded.WellFormed where
  params := by simp [reworded, Dictionary.keys, Value.ofUInt64]
  defaultFilter := wellFormed_wide.defaultFilter

theorem muted_reworded : reworded.muted = wide.muted := rfl

/-- **No string is looked into.**  Two requests that differ in nothing but what the strings of their
filters say are refused for the same reason, or get queries with one text and as many parameters,
each of them the string at its place in its own request. -/
theorem parallel_of_muted_eq (v : Validator) (table : String) (hr : r.WellFormed)
    (hr' : r'.WellFormed) (h : r'.muted = r.muted) :
    (∃ e, r.query (Backend.ofDialect v) (.ofTable table) = .error e ∧
        r'.query (Backend.ofDialect v) (.ofTable table) = .error e) ∨
      ∃ q q', r.query (Backend.ofDialect v) (.ofTable table) = .ok q ∧
        r'.query (Backend.ofDialect v) (.ofTable table) = .ok q' ∧ r.Parallel r' q q' := by
  rcases eq_or_places_of_muted_eq h with rfl | ⟨hp, hp', hplaces⟩
  · rcases hq : r'.query (Backend.ofDialect v) (.ofTable table) with e | q
    · exact .inl ⟨e, rfl, rfl⟩
    · have hparams := params_of_query hr hq
      exact .inr ⟨q, q, rfl, rfl, rfl, rfl, hparams, hparams⟩
  · -- Both outcomes are one, but for strings: one failure, or two queries with one text.
    have hmap := map_query_eq_of_muted_eq v table hr hr' hp hp' h
    rcases error_or_ok_of_map_eq hmap with ⟨e, he', he⟩ | ⟨q', q, hq', hq, hrelabel⟩
    · exact .inl ⟨e, he, he'⟩
    · obtain ⟨htext, hlength⟩ := Select.text_positional_of_relabel_eq hrelabel
      exact .inr ⟨q, q', hq, hq', htext, hlength, params_of_query hr hq,
        hplaces ▸ params_of_query hr' hq'⟩

/-- The two requests get queries with one text, each with parameters of its own. -/
theorem parallel_of_muted_eq_reworded :
    wide.WellFormed ∧ reworded.WellFormed ∧ reworded.muted = wide.muted ∧
      ∃ q, reworded.query .sql (.ofTable "t") = .ok q ∧ wide.Parallel reworded wideQuery q := by
  refine ⟨wellFormed_wide, wellFormed_reworded, muted_reworded, ?_⟩
  rcases parallel_of_muted_eq .full "t" wellFormed_wide wellFormed_reworded
    muted_reworded with ⟨e, he, -⟩ | ⟨q, q', hq, hq', hparallel⟩
  · cases he.symm.trans query_wide
  · cases hq.symm.trans query_wide
    exact ⟨q', hq', hparallel⟩

end Request

end FacetQuery
