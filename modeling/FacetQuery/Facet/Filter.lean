import FacetQuery.Backend.Basic
import FacetQuery.Request
import FacetQuery.Text.Split

/-!
# Facet — Filtering

A filter is an object from fields to conditions: an object from operator names to values, or
another value, with which the field is compared by `=`.

- `Filter.predicates` reads it, up to the first name that no operator has.
- `Filter.flat` lists the predicates under keys `field:operator`, and `Filter.apply` reads the keys
  back at their last colon.
-/

namespace FacetQuery.Filter

open Json

/-- The name of the parameter. -/
def parameter : String := "filter"

/-! ### Reading -/

/-- `predicate field name value` is the predicate given under an operator's name. -/
def predicate (field name : String) (value : Value) : Except Refusal Predicate :=
  match Operator.ofName? name with
  | some op => .ok ⟨field, op, value⟩
  | none => .error (.invalid (.unknownOperator field name))

/-- `condition field c` are the predicates that the condition `c` holds for a field. -/
def condition (field : String) : Value → Except Refusal (List Predicate)
  | .object operators => operators.mapM fun entry => predicate field entry.1 entry.2
  | value => .ok [⟨field, .equal, value⟩]

/-- `predicates fields` are all predicates, field by field. -/
def predicates (fields : Dictionary Value) : Except Refusal (List Predicate) := do
  let conditions ← fields.mapM fun entry => condition entry.1 entry.2
  return conditions.flatten

/-- `ofValue v` reads the filter of a request. -/
def ofValue : Value → Except Refusal (List Predicate)
  | .object fields => predicates fields
  | _ => .error (.invalid .filterShape)

/-- `requested r` are the predicates of the request, or those of the schema if it has no filter. -/
def requested (r : Request) : Except Refusal (List Predicate) :=
  match r.param? parameter with
  | some v => ofValue v
  | none => predicates r.schema.filter.default

/-! ### Validating -/

/-- `checkFields fields ps` refuses the first predicate on a field that is not allowed. -/
def checkFields (fields : Fields) (ps : List Predicate) : Except Refusal Unit :=
  match ps.find? fun p => !fields.permits p.field with
  | some p => .error (.invalid (.notFilterable p.field))
  | none => .ok ()

/-- `validate v r` checks the filter of the request, or that of the schema, on whose fields there
are no restrictions. -/
def validate (v : Validator) (r : Request) : Except Refusal Unit := do
  let ps ← requested r
  if (r.param? parameter).isSome then checkFields r.schema.filter.fields ps
  ps.forM fun p => v.check (.filter p.op) p.field p.value

/-! ### Applying -/

/-- `flatKey p` is the key under which a predicate is listed. -/
def flatKey (p : Predicate) : String :=
  p.field ++ ":" ++ p.op.name

/-- `flat r` lists the predicates of the request, or none if they cannot be read. -/
def flat (r : Request) : Dictionary Value :=
  match requested r with
  | .ok ps => Dictionary.ofEntries (ps.map fun p => (flatKey p, p.value))
  | .error _ => []

/-- `ofFlat? key value` is the predicate listed under a key. -/
def ofFlat? (key : String) (value : Value) : Option Predicate :=
  match Text.cutLast? ':' key.toList with
  | some (field, name) =>
      (Operator.ofName? (String.ofList name)).map fun op => ⟨String.ofList field, op, value⟩
  | none => none

/-- `apply b params` filters by each listed predicate. -/
def apply {β : Type} (b : Backend β) (params : Dictionary Value) : Build β Unit :=
  params.forM fun entry =>
    match ofFlat? entry.1 entry.2 with
    | some p => b.filter p
    | none => throw (.inexpressible (.parameter entry.1))

theorem colon_notMem_name (op : Operator) : ':' ∉ op.name.toList := by
  cases op <;> decide

/-- A predicate is read back from its key. -/
theorem ofFlat?_flatKey (p : Predicate) : ofFlat? (flatKey p) p.value = some p := by
  have h : (flatKey p).toList = p.field.toList ++ ':' :: p.op.name.toList := by
    simp [flatKey, String.toList_append]
  simp [ofFlat?, h, Text.cutLast?_append _ (colon_notMem_name p.op), Operator.ofName?_name]

end FacetQuery.Filter
