import FacetQuery.Proofs.Facet.Filter
import FacetQuery.Proofs.First

/-!
# Facet — The verdict on a filter

A filter is checked in three passes over its entries: is there such an operator, may requests filter
by the field, does the backend have the operator and is the value of its kind.  A pass that finds
something names the first entry at fault, and the passes behind it do not take place.

* `OperatorClass.Takes`, `OperatorClass.wanted`: the values of an operator, and what to call them.
* `Filter.Verdict v fields es x`: the entries `es` are judged `x`, where requests may filter by
  `fields`; `Filter.judge_eq_iff`: this is what the three passes say.
* `Filter.Judged v r x`: the filter that holds for `r` is judged `x`; `Filter.validate_iff_judged`:
  this is what the check of the facet says.
-/

namespace FacetQuery

open Json

/-! ### Values and operators -/

namespace OperatorClass

/-- `Takes c v` says that operators of the class `c` take values like `v`. -/
inductive Takes : OperatorClass → Value → Prop where
  | bool (b : Bool) : Takes .equality (.bool b)
  | number (n : Number) : Takes .equality (.number n)
  | string (s : String) : Takes .equality (.string s)
  | compared (n : Number) : Takes .comparison (.number n)
  | null : Takes .nullCheck .null
  | members (vs : List Value) : Takes .setMembership (.array vs)
  | bounds (vs : List Value) : Takes .range (.array vs)
  | pattern (s : String) : Takes .pattern (.string s)

/-- `wanted c` is what a message calls the values that operators of the class `c` take. -/
def wanted : OperatorClass → String
  | .equality      => "one of [boolean, number, string]"
  | .comparison    => "a number"
  | .nullCheck     => "[null]"
  | .setMembership => "an array"
  | .range         => "an array"
  | .pattern       => "a string"

end OperatorClass

/-- The shape that the backend checks admits the values that an operator takes. -/
theorem ValueShape.admits_iff_takes {op : Operator} {v : Value} :
    (ofOperation (.filter op)).admits v = true ↔ op.cls.Takes v := by
  simp only [ofOperation]
  generalize op.cls = c
  constructor
  · intro h
    cases c <;> cases v <;> first | exact absurd h Bool.false_ne_true | constructor
  · intro h
    cases h <;> rfl

/-- What a message calls the shape is what it calls those values. -/
theorem ValueShape.description_eq_wanted (op : Operator) :
    (ofOperation (.filter op)).description = op.cls.wanted := by
  simp only [ofOperation]
  cases op.cls <;> rfl

/-- Every description belongs to one shape. -/
theorem ValueShape.description_injective : Function.Injective description := by
  intro s t
  cases s <;> cases t <;> decide

namespace Filter

variable {v : Validator} {fields : Fields} {x : Entry} {es : List Entry} {e : Refusal}

/-! ### Entries -/

namespace Entry

/-- `Known x` says that there is an operator of the name that `x` has. -/
def Known (x : Entry) : Prop := ∃ op : Operator, op.name = x.name

/-- `Accepted v x` says that the backend of `v` has the operator of `x`, and that the value of `x`
is one for this operator. -/
def Accepted (v : Validator) (x : Entry) : Prop :=
  ∃ op : Operator, op.name = x.name ∧ v.supports (.filter op) = true ∧ op.cls.Takes x.value

/-- `Rejected v x e` says that an entry `x` with a known operator is not accepted, because of
`e`. -/
inductive Rejected (v : Validator) : Entry → Refusal → Prop where
  /-- The backend does not have the operator. -/
  | unsupported {field : String} {op : Operator} {value : Value} :
      v.supports (.filter op) = false →
      Rejected v ⟨field, op.name, value⟩ (.unsupported (.filter op))
  /-- It has, but the value is none for the operator; the message says which ones are. -/
  | value {field : String} {op : Operator} {value : Value} {shape : ValueShape} :
      v.supports (.filter op) = true → ¬ op.cls.Takes value → shape.description = op.cls.wanted →
      Rejected v ⟨field, op.name, value⟩ (.invalid (.valueShape field shape))

/-- An entry without a known operator names the operator and the field. There is no other way to
fail in the first pass. -/
theorem read_eq_error_iff :
    x.read = .error e ↔ ¬ x.Known ∧ e = .invalid (.unknownOperator x.field x.name) := by
  unfold read predicate
  cases h : Operator.ofName? x.name with
  | none =>
      have hk : ¬ x.Known := by
        rintro ⟨op, hop⟩
        rw [← hop, Operator.ofName?_name] at h
        cases h
      simp [hk, eq_comm]
  | some op =>
      have hk : x.Known := ⟨op, Operator.name_of_ofName? h⟩
      simp [hk]

theorem fails_read_iff : Fails read x ↔ ¬ x.Known := by
  simp only [Fails, read_eq_error_iff, exists_and_left, exists_eq, and_true]

end Entry

/-- Entries with known operators are those of some predicates. -/
theorem exists_eq_map_entry (h : ∀ x ∈ es, x.Known) : ∃ ps : List Predicate, es = ps.map entry := by
  cases hps : es.mapM Entry.read with
  | ok ps => exact ⟨ps, mapM_read_eq_ok_iff.mp hps⟩
  | error e =>
      obtain ⟨x, hx, -⟩ := mapM_eq_error_iff.mp hps
      obtain ⟨y, hy, hunknown⟩ := exists_first_iff.mp ⟨x, hx⟩
      exact absurd (h y hy) (Entry.fails_read_iff.mp hunknown)

/-! ### The three passes -/

/-- `judge v fields es` checks the entries `es` in three passes, where requests may filter by
`fields`. -/
def judge (v : Validator) (fields : Fields) (es : List Entry) : Except Refusal Unit := do
  let ps ← es.mapM Entry.read
  checkFields fields ps
  ps.forM fun p => v.check (.filter p.op) p.field p.value

/-- `Verdict v fields es x` says that the entries `es` are judged `x`. -/
inductive Verdict (v : Validator) (fields : Fields) (es : List Entry) :
    Except Refusal Unit → Prop where
  /-- All operators are known, all fields permitted and all entries accepted. -/
  | passed : (∀ x ∈ es, x.Known) → (∀ x ∈ es, fields.Allows x.field) →
      (∀ x ∈ es, x.Accepted v) → Verdict v fields es (.ok ())
  /-- The first operator that is not known. -/
  | unknown {x : Entry} : First (fun x => ¬ x.Known) es x →
      Verdict v fields es (.error (.invalid (.unknownOperator x.field x.name)))
  /-- If all are known, the first field that is not permitted. -/
  | notPermitted {x : Entry} : (∀ x ∈ es, x.Known) →
      First (fun x => ¬ fields.Allows x.field) es x →
      Verdict v fields es (.error (.invalid (.notFilterable x.field)))
  /-- If all are known and all fields are permitted, the first entry that is not accepted. -/
  | rejected {x : Entry} {e : Refusal} : (∀ x ∈ es, x.Known) →
      (∀ x ∈ es, fields.Allows x.field) → First (fun x => ¬ x.Accepted v) es x →
      x.Rejected v e → Verdict v fields es (.error e)

/-- An entry with a known operator that is not accepted is rejected for some reason, of which there
is only one at a time. -/
theorem Entry.exists_rejected (hk : x.Known) (h : ¬ x.Accepted v) : ∃ e, x.Rejected v e := by
  obtain ⟨field, name, value⟩ := x
  obtain ⟨op, rfl⟩ := hk
  cases hs : v.supports (.filter op) with
  | false => exact ⟨_, .unsupported hs⟩
  | true  =>
      exact ⟨_, .value hs (fun ht => h ⟨op, rfl, hs, ht⟩) (ValueShape.description_eq_wanted op)⟩

/-- Any entries are judged somehow: each pass finds a first entry at fault, or none, and then the
next one follows. -/
theorem exists_verdict (v : Validator) (fields : Fields) (es : List Entry) :
    ∃ x, Verdict v fields es x := by
  by_cases hk : ∀ x ∈ es, x.Known
  · by_cases hp : ∀ x ∈ es, fields.Allows x.field
    · by_cases ha : ∀ x ∈ es, x.Accepted v
      · exact ⟨_, .passed hk hp ha⟩
      · simp only [not_forall, exists_prop] at ha
        obtain ⟨x, hx⟩ := exists_first_iff.mpr ha
        obtain ⟨e, he⟩ := x.exists_rejected (hk x hx.mem) hx.holds
        exact ⟨_, .rejected hk hp hx he⟩
    · simp only [not_forall, exists_prop] at hp
      obtain ⟨x, hx⟩ := exists_first_iff.mpr hp
      exact ⟨_, .notPermitted hk hx⟩
  · simp only [not_forall, exists_prop] at hk
    obtain ⟨x, hx⟩ := exists_first_iff.mpr hk
    exact ⟨_, .unknown hx⟩

section

variable {p : Predicate} {ps : List Predicate}

/-- A predicate passes the backend's check if its entry is accepted. -/
theorem check_eq_ok_iff_accepted :
    v.check (.filter p.op) p.field p.value = .ok () ↔ (entry p).Accepted v := by
  rw [Validator.check_eq_ok_iff, ValueShape.admits_iff_takes]
  constructor
  · rintro ⟨hs, ht⟩
    exact ⟨p.op, rfl, hs, ht⟩
  · rintro ⟨op, hname, hs, ht⟩
    cases Operator.name_injective hname
    exact ⟨hs, ht⟩

theorem check_of_rejected (h : (entry p).Rejected v e) :
    v.check (.filter p.op) p.field p.value = .error e := by
  generalize hx : entry p = x at h
  cases h with
  | unsupported hs =>
      cases @entry_injective _ ⟨_, _, _⟩ hx
      simp [Validator.check, Validator.require, hs, bind, Except.bind]
  | @value _ op _ shape hs ht hshape =>
      cases @entry_injective _ ⟨_, _, _⟩ hx
      rw [← ValueShape.description_eq_wanted] at hshape
      cases ValueShape.description_injective hshape
      rw [← ValueShape.admits_iff_takes] at ht
      simp [Validator.check, Validator.require, hs, ht, bind, Except.bind]

theorem fails_check_iff :
    Fails (fun p : Predicate => v.check (.filter p.op) p.field p.value) p ↔
      ¬ (entry p).Accepted v := by
  rw [← check_eq_ok_iff_accepted]
  exact iff_not_comm.mp not_fails_iff.symm

/-- The second pass names the first field that requests may not filter by. -/
theorem checkFields_of_first (h : First (fun p => ¬ fields.Allows p.field) ps p) :
    checkFields fields ps = .error (.invalid (.notFilterable p.field)) := by
  have hfind : (ps.find? fun p => !fields.permits p.field) = some p :=
    find?_eq_some_iff_first.mpr (h.congr fun p _ => by simp [Fields.permits_eq_false_iff])
  simp only [checkFields, hfind]

/-- For entries with known operators, the first pass finds nothing, and the other two are over their
predicates. -/
theorem judge_map_entry : judge v fields (ps.map entry) =
    (checkFields fields ps >>= fun _ =>
      ps.forM fun p => v.check (.filter p.op) p.field p.value) := by
  rw [judge, mapM_read_eq_ok_iff.mpr rfl]
  rfl

/-- The three passes, where each verdict says what the passes before it have not found. So no two
verdicts can be given. -/
theorem judge_of_verdict {x : Except Refusal Unit} (h : Verdict v fields es x) :
    judge v fields es = x := by
  cases h with
  | passed hk hp ha =>
      obtain ⟨ps, rfl⟩ := exists_eq_map_entry hk
      have hfields : ∀ p ∈ ps, fields.Allows p.field := fun p hmem => hp _ (List.mem_map_of_mem hmem)
      rw [judge_map_entry, checkFields_eq_ok_iff.mpr hfields]
      exact forM_eq_ok_iff.mpr fun p hmem =>
        check_eq_ok_iff_accepted.mpr (List.forall_mem_map.mp ha p hmem)
  | unknown hx =>
      -- The first pass fails, so the others do not take place.
      exact bind_eq_error_iff.mpr (.inl (mapM_eq_error_iff.mpr
        ⟨_, hx.congr fun _ _ => Entry.fails_read_iff.symm, Entry.read_eq_error_iff.mpr
          ⟨hx.holds, rfl⟩⟩))
  | notPermitted hk hx =>
      obtain ⟨ps, rfl⟩ := exists_eq_map_entry hk
      obtain ⟨p, hp, rfl⟩ := first_map_iff.mp hx
      rw [judge_map_entry, checkFields_of_first hp]
      rfl
  | rejected hk hp hx he =>
      obtain ⟨ps, rfl⟩ := exists_eq_map_entry hk
      obtain ⟨p, hfirst, rfl⟩ := first_map_iff.mp hx
      have hfields : ∀ p ∈ ps, fields.Allows p.field := fun p hmem => hp _ (List.mem_map_of_mem hmem)
      rw [judge_map_entry, checkFields_eq_ok_iff.mpr hfields]
      -- Two passes find nothing, and the third one names the first entry that is rejected.
      exact forM_eq_error_iff.mpr
        ⟨p, hfirst.congr fun _ _ => fails_check_iff.symm, check_of_rejected he⟩

end

/-- **The verdict** on entries is what the three passes say. Since there always is one, it is the
only one. -/
theorem judge_eq_iff {x : Except Refusal Unit} :
    judge v fields es = x ↔ Verdict v fields es x := by
  refine ⟨fun h => ?_, judge_of_verdict⟩
  obtain ⟨y, hy⟩ := exists_verdict v fields es
  rw [← h, judge_of_verdict hy]
  exact hy

/-! ### Requests -/

/-- `Judged v r x` says that the filter that holds for `r` is judged `x`. -/
inductive Judged (v : Validator) (r : Request) : Except Refusal Unit → Prop where
  /-- A request's filter that is no object. -/
  | noObject {value : Value} : r.param? parameter = some value →
      (∀ fields, value ≠ .object fields) → Judged v r (.error (.invalid .filterShape))
  /-- A request's filter, which may name the fields that the schema permits. -/
  | requested {fields : Dictionary Value} {x : Except Refusal Unit} :
      r.param? parameter = some (.object fields) →
      Verdict v r.schema.filter.fields (entriesOf fields) x → Judged v r x
  /-- The schema's filter, which may name any field. -/
  | default {x : Except Refusal Unit} : r.param? parameter = none →
      Verdict v .any (entriesOf r.schema.filter.default) x → Judged v r x

variable {r : Request}

/-- A request's filter is judged with the fields that requests may filter by. -/
theorem validate_of_object {fields : Dictionary Value}
    (h : r.param? parameter = some (.object fields)) :
    validate v r = judge v r.schema.filter.fields (entriesOf fields) := by
  simp only [validate, requested, h, ofValue, predicates_eq_mapM, Option.isSome_some, if_true]
  rfl

/-- The schema's own filter is judged without them, for the schema may filter by any field. -/
theorem validate_of_default (h : r.param? parameter = none) :
    validate v r = judge v .any (entriesOf r.schema.filter.default) := by
  have hany (ps : List Predicate) : checkFields .any ps = .ok () :=
    checkFields_eq_ok_iff.mpr fun p _ => Fields.allows_any p.field
  simp only [validate, requested, h, predicates_eq_mapM, judge, hany]
  rfl

theorem validate_of_noObject {value : Value} (h : r.param? parameter = some value)
    (hvalue : ∀ fields, value ≠ .object fields) :
    validate v r = .error (.invalid .filterShape) := by
  simp only [validate, requested, h]
  cases value with
  | object fields => exact absurd rfl (hvalue fields)
  | _ => rfl

/-- **The check of a filter** that is switched on says how its entries are judged, be it the
request's own filter or that of the schema. -/
theorem validate_iff_judged (hon : Facet.filter.isEnabled r.schema = true)
    {x : Except Refusal Unit} : Facet.filter.validate v r = x ↔ Judged v r x := by
  rw [Facet.validate_of_isEnabled hon, Facet.check]
  constructor
  · intro h
    rcases hp : r.param? parameter with _ | value
    · rw [validate_of_default hp] at h
      exact .default hp (judge_eq_iff.mp h)
    · by_cases hvalue : ∃ fields, value = .object fields
      · obtain ⟨fields, rfl⟩ := hvalue
        rw [validate_of_object hp] at h
        exact .requested hp (judge_eq_iff.mp h)
      · rw [validate_of_noObject hp (not_exists.mp hvalue)] at h
        exact h ▸ .noObject hp (not_exists.mp hvalue)
  · intro h
    cases h with
    | noObject hp hvalue => exact validate_of_noObject hp hvalue
    | requested hp hx    => rw [validate_of_object hp, judge_of_verdict hx]
    | default hp hx      => rw [validate_of_default hp, judge_of_verdict hx]

/-- Filters by a field that is permitted, and names another one without a condition on it. -/
def misplaced : Request where
  params := [("filter", .object [("b", .object []),
    ("a", .object [("in", .array [.null]), (">", .string "1")])])]
  schema := { Schema.standard with filter := ⟨true, .only ["a"], []⟩ }

/-- A condition without entries is judged as if it were not there, so its field need not be
permitted. What is rejected then is the value of the other condition. -/
theorem validate_iff_judged_misplaced :
    Facet.filter.isEnabled misplaced.schema = true ∧
      Facet.filter.validate .full misplaced = .error (.invalid (.valueShape "a" .number)) ∧
      Judged .full misplaced (.error (.invalid (.valueShape "a" .number))) :=
  have h : Facet.filter.validate .full misplaced
      = .error (.invalid (.valueShape "a" .number)) := by decide +kernel
  ⟨rfl, h, (validate_iff_judged rfl).mp h⟩

end Filter

end FacetQuery
