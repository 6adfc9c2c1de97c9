import FacetQuery.Proofs.Facet.Basic
import FacetQuery.Proofs.Sql.Backend
import FacetQuery.Proofs.WellFormed

/-!
# Facet — Filtering, entry by entry

A filter is read into predicates, listed under keys `field:operator`, and read back from the keys.
Nothing is lost on the way, and nothing comes in.

* `asked r`: the entries (field, operator's name, value) of the filter that holds for `r`, as they
  stand in its object; a bare value stands under `=`.
* `Entry.read`, `predicates_eq_mapM`: a filter is read entry by entry;
  `map_entry_of_requested`: the predicates that are read are these entries.
* `flat_eq_map`: in a well-formed request each of them has a key of its own.
* `mem_flat`: what is listed under a key is always one of them.
* `apply_ok`, `run_ok`: over SQL, applying a list adds the condition of each predicate in it, and
  so does a run that succeeds.
-/

namespace FacetQuery

open Json Sql

theorem Operator.name_injective : Function.Injective name := by
  intro op op' h
  have hop : some op = some op' := by rw [← ofName?_name op, ← ofName?_name op', h]
  exact Option.some.inj hop

namespace Filter

/-! ### Entries -/

/-- An entry of a filter, as it is written. -/
structure Entry where
  field : String
  /-- The name of an operator. -/
  name : String
  value : Value

/-- `entriesAt field c` are the entries of the condition `c` on a field. -/
def entriesAt (field : String) : Value → List Entry
  | .object operators => operators.map fun o => ⟨field, o.1, o.2⟩
  | value             => [⟨field, "=", value⟩]

/-- `entriesOf fields` are the entries of a filter object, in its order. -/
def entriesOf (fields : Dictionary Value) : List Entry :=
  fields.flatMap fun f => entriesAt f.1 f.2

/-- `asked r` are the entries of the request's filter, or of the schema's if it has none. -/
def asked (r : Request) : List Entry :=
  match r.param? parameter with
  | some (.object fields) => entriesOf fields
  | some _                => []
  | none                  => entriesOf r.schema.filter.default

/-- `entry p` is how the predicate `p` is written. -/
def entry (p : Predicate) : Entry := ⟨p.field, p.op.name, p.value⟩

/-- `read x` is the predicate that is written as `x`. -/
def Entry.read (x : Entry) : Except Refusal Predicate :=
  predicate x.field x.name x.value

theorem entry_injective : Function.Injective entry := by
  rintro ⟨field, op, value⟩ ⟨field', op', value'⟩ h
  obtain ⟨rfl, hname, rfl⟩ := Entry.mk.inj h
  cases Operator.name_injective hname
  rfl

/-- An entry is read as a predicate if it is how this predicate is written. No two operators have
one name, so there is one such predicate at most. -/
theorem Entry.read_eq_ok_iff {x : Entry} {p : Predicate} : x.read = .ok p ↔ x = entry p := by
  constructor
  · intro h
    unfold read predicate at h
    split at h
    · next op hop =>
        cases h
        rw [entry, Operator.name_of_ofName? hop]
    · cases h
  · rintro rfl
    simp only [read, predicate, entry, Operator.ofName?_name]

/-- Entries are read as the predicates that are written so. -/
theorem mapM_read_eq_ok_iff {es : List Entry} {ps : List Predicate} :
    es.mapM Entry.read = .ok ps ↔ es = ps.map entry := by
  simp only [mapM_eq_ok_iff, Entry.read_eq_ok_iff]
  rw [← List.forall₂_map_right_iff, List.forall₂_eq_eq_eq]

theorem condition_eq_mapM (field : String) (c : Value) :
    condition field c = (entriesAt field c).mapM Entry.read := by
  cases c with
  | object operators => rw [entriesAt, List.mapM_map]; rfl
  | _ =>
      have hequal : Operator.ofName? "=" = some .equal := by decide
      simp [condition, entriesAt, Entry.read, predicate, hequal]

/-- A filter is read entry by entry, although the program reads it field by field and each field
operator by operator. -/
theorem predicates_eq_mapM (fields : Dictionary Value) :
    predicates fields = (entriesOf fields).mapM Entry.read := by
  induction fields with
  | nil => rfl
  | cons f fields ih =>
      rw [entriesOf, List.flatMap_cons, List.mapM_append, ← entriesOf, ← ih, ← condition_eq_mapM,
        predicates, predicates, List.mapM_cons]
      cases condition f.1 f.2 with
      | error _ => rfl
      | ok _ => cases fields.mapM fun entry => condition entry.1 entry.2 <;> rfl

theorem map_entry_of_predicates {fields : Dictionary Value} {ps : List Predicate}
    (h : predicates fields = .ok ps) : ps.map entry = entriesOf fields :=
  (mapM_read_eq_ok_iff.mp (predicates_eq_mapM fields ▸ h)).symm

/-- The predicates of a request are the entries of its filter, one for one. -/
theorem map_entry_of_requested {r : Request} {ps : List Predicate} (h : requested r = .ok ps) :
    ps.map entry = asked r := by
  unfold requested at h
  unfold asked
  split at h
  · next v hv =>
      cases v with
      | object fields => rw [hv]; exact map_entry_of_predicates h
      | _ => cases h
  · next hn => rw [hn]; exact map_entry_of_predicates h

/-! ### Keys -/

/-- Fields may hold colons; the last one still ends the field, as no operator's name has one. -/
theorem eq_of_flatKey_eq {p p' : Predicate} (h : flatKey p = flatKey p') :
    p.field = p'.field ∧ p.op = p'.op := by
  have hp := ofFlat?_flatKey p
  have hp' := ofFlat?_flatKey ⟨p'.field, p'.op, p.value⟩
  rw [h] at hp
  have he : some p = some ⟨p'.field, p'.op, p.value⟩ := hp.symm.trans hp'
  cases p
  cases he
  exact ⟨rfl, rfl⟩

/-- Entries on one field have distinct operators, since keys of an object do not repeat. -/
theorem nodup_entriesAt {field : String} {c : Value} (hc : c.WellFormed) :
    ((entriesAt field c).map fun e => (e.field, e.name)).Nodup := by
  cases hc with
  | @object operators hk _ =>
      have he : (entriesAt field (.object operators)).map (fun e => (e.field, e.name))
          = (Dictionary.keys operators).map fun name => (field, name) := by
        simp [entriesAt, Dictionary.keys]
      rw [he]
      exact hk.map fun _ _ h => (Prod.mk.inj h).2
  | _ => exact List.nodup_singleton _

theorem field_of_mem_entriesAt {field : String} {c : Value} {e : Entry}
    (h : e ∈ entriesAt field c) : e.field = field := by
  cases c with
  | object operators =>
      obtain ⟨o, -, rfl⟩ := List.mem_map.mp h
      rfl
  | _ => rw [List.mem_singleton.mp h]

/-- No two entries of a well-formed filter have both field and operator in common: fields are keys,
and so are operators within a field. -/
theorem nodup_entriesOf {fields : Dictionary Value} (h : (Value.object fields).WellFormed) :
    ((entriesOf fields).map fun e => (e.field, e.name)).Nodup := by
  cases h with
  | object hk hm =>
      induction fields with
      | nil => exact .nil
      | cons f fields ih =>
          obtain ⟨hf, hk⟩ := List.nodup_cons.mp hk
          obtain ⟨hc, hm⟩ := List.forall_mem_cons.mp hm
          rw [entriesOf, List.flatMap_cons, List.map_append]
          -- An entry met again further on would bring its field a second time among the keys.
          refine (nodup_entriesAt hc).append (ih hk hm) fun x hx hx' => hf ?_
          obtain ⟨e, he, rfl⟩ := List.mem_map.mp hx
          obtain ⟨e', he', heq⟩ := List.mem_map.mp hx'
          obtain ⟨f', hf', he'⟩ := List.mem_flatMap.mp he'
          have hfield : e'.field = e.field := (Prod.mk.inj heq).1
          rw [field_of_mem_entriesAt he', field_of_mem_entriesAt he] at hfield
          exact List.mem_map.mpr ⟨f', hf', hfield⟩

/-- No two entries that a well-formed request asks for have both in common. -/
theorem nodup_asked {r : Request} (hr : r.WellFormed) :
    ((asked r).map fun e => (e.field, e.name)).Nodup := by
  unfold asked
  split
  · next fields hv => exact nodup_entriesOf (hr.param hv)
  · exact .nil
  · exact nodup_entriesOf hr.defaultFilter

/-- Predicates that differ in field or operator are listed under different keys. -/
theorem nodup_map_flatKey {ps : List Predicate}
    (h : ((ps.map entry).map fun e => (e.field, e.name)).Nodup) : (ps.map flatKey).Nodup := by
  rw [List.map_map] at h
  refine (List.nodup_map_iff_inj_on h.of_map).mpr fun p hp p' hp' hk => ?_
  obtain ⟨hfield, hop⟩ := eq_of_flatKey_eq hk
  exact List.inj_on_of_nodup_map h hp hp' (by simp [entry, hfield, hop])

/-- **The list of a well-formed filter** has every predicate, in order, under its own key. Distinct
predicates have distinct keys, so none is written over. -/
theorem flat_eq_map {r : Request} (hr : r.WellFormed) {ps : List Predicate}
    (h : requested r = .ok ps) : flat r = ps.map fun p => (flatKey p, p.value) := by
  rw [flat, h]
  refine Dictionary.ofEntries_of_nodup ?_
  rw [List.map_map]
  exact nodup_map_flatKey (map_entry_of_requested h ▸ nodup_asked hr)

/-- Whatever is listed is some predicate under its key, even if keys were to repeat. -/
theorem mem_flat {r : Request} {ps : List Predicate} (h : requested r = .ok ps)
    {x : String × Value} (hx : x ∈ flat r) : ∃ p ∈ ps, x = (flatKey p, p.value) := by
  rw [flat, h] at hx
  obtain ⟨p, hp, rfl⟩ := List.mem_map.mp (Dictionary.mem_ofEntries hx)
  exact ⟨p, hp, rfl⟩

/-! ### Validating and applying -/

/-- The fields pass if requests may filter by all of them. -/
theorem checkFields_eq_ok_iff {fields : Fields} {ps : List Predicate} :
    checkFields fields ps = .ok () ↔ ∀ p ∈ ps, fields.Allows p.field := by
  unfold checkFields
  split
  · next p hp =>
      have hn := List.find?_some hp
      simp only [reduceCtorEq, false_iff]
      intro h
      rw [Fields.permits_iff.mpr (h p (List.mem_of_find?_eq_some hp))] at hn
      cases hn
  · next hn => simpa [Fields.permits_iff] using hn

/-- A filter that passes can be read, and each of its predicates passes; a request's predicates
are on permitted fields. -/
theorem validate_eq_ok_iff {v : Validator} {r : Request} :
    validate v r = .ok () ↔ ∃ ps, requested r = .ok ps ∧
      ((r.param? parameter).isSome → ∀ p ∈ ps, r.schema.filter.fields.Allows p.field) ∧
      ∀ p ∈ ps, v.check (.filter p.op) p.field p.value = .ok () := by
  unfold validate
  rw [bind_eq_ok_iff]
  refine exists_congr fun ps => and_congr_right fun _ => ?_
  cases (r.param? parameter).isSome with
  | false =>
      simp only [Bool.false_eq_true, if_false, false_implies, true_and]
      exact forM_eq_ok_iff
  | true =>
      simp only [if_true, forall_const]
      rw [check_bind_eq_ok_iff, checkFields_eq_ok_iff, forM_eq_ok_iff]

/-- A well-formed filter that can be read is applied predicate by predicate, with none refused for
its key. -/
theorem apply_flat {β : Type} (b : Backend β) {r : Request} (hr : r.WellFormed)
    {ps : List Predicate} (h : requested r = .ok ps) : apply b (flat r) = ps.forM b.filter := by
  rw [flat_eq_map hr h, apply, List.forM_eq_forM, List.forM_map]
  simp only [ofFlat?_flatKey]
  rfl

/-- Applying a list adds, in its order, the condition that each predicate read from it asks for. One
that has no condition would have failed. -/
theorem apply_ok {v : Validator} {params : Dictionary Value} {q q' : Select}
    (h : (apply (Backend.ofDialect v) params).run q = (.ok (), q')) :
    ∃ es, List.Forall₂ (fun x e => ∃ p, ofFlat? x.1 x.2 = some p ∧ p.Asks e) params es ∧
      q' = es.foldl Select.filter q := by
  refine Build.run_forM_ok (fun x q q' hx => ?_) h
  split at hx
  · next p hp =>
      obtain ⟨-, e, he, rfl⟩ := Backend.run_filter_ok_iff.mp hx
      exact ⟨e, ⟨p, hp, he⟩, rfl⟩
  · exact absurd hx Build.run_throw_ne_ok

/-- **A run over SQL that succeeds** adds nothing if filtering is switched off.  Otherwise the
filter can be read, its fields are permitted if it is the request's, and each parameter that is
listed is one of its predicates and adds the condition that this predicate asks for. -/
theorem run_ok {v : Validator} {r : Request} {q q' : Select}
    (h : (Facet.filter.run (Backend.ofDialect v) r).run q = (.ok (), q'))
    (hq : q.condition = .literal (.bool true)) :
    r.schema.filter.isEnabled = false ∧ q' = q ∨
    r.schema.filter.isEnabled = true ∧ ∃ ps es, requested r = .ok ps ∧
      ((r.param? parameter).isSome → ∀ p ∈ ps, r.schema.filter.fields.Allows p.field) ∧
      List.Forall₂ (fun x e => ∃ p ∈ ps, x = (flatKey p, p.value) ∧ p.Asks e) (flat r) es ∧
      q' = { q with condition := .all es } := by
  rcases Facet.run_ok_iff.mp h with ⟨hoff, rfl⟩ | ⟨hon, hc, ha⟩
  · exact .inl ⟨hoff, rfl⟩
  · obtain ⟨ps, hps, hperm, -⟩ := validate_eq_ok_iff.mp hc
    obtain ⟨es, hes, rfl⟩ := apply_ok ha
    refine .inr ⟨hon, ps, es, hps, hperm, ?_, ?_⟩
    · -- What is read back from a key is the predicate that was put under it.
      have hlisted := (List.forall₂_and_left _ _).mpr ⟨fun x hx => mem_flat hps hx, hes⟩
      refine hlisted.imp fun x e hxe => ?_
      obtain ⟨⟨p, hp, hx⟩, p', hp', he⟩ := hxe
      refine ⟨p, hp, hx, ?_⟩
      rw [hx, ofFlat?_flatKey] at hp'
      cases hp'
      exact he
    · refine Select.foldl_filter (Expr.isTrue_iff.mpr hq) fun e he => ?_
      obtain ⟨x, -, p, -, hp⟩ := exists_left_of_mem hes he
      exact hp.isTrue_eq_false

end Filter

end FacetQuery
