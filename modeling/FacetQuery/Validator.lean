import FacetQuery.Refusal

/-!
# Validators

A validator knows the operations of one backend. A value passes if its operation is among them
and it has the operation's shape.
-/

namespace FacetQuery

/-- The operations that a backend implements. -/
structure Validator where
  operations : List Operation
deriving DecidableEq, Repr

namespace Validator

/-- The validator of a backend that implements everything. -/
def full : Validator := ⟨Operation.all⟩

/-- `ofOperators ops` implements filters by `ops`, sorts and pages. -/
def ofOperators (ops : List Operator) : Validator :=
  ⟨ops.map .filter ++ [.sort, .page]⟩

/-- `supports v o` says that the backend implements `o`. -/
def supports (v : Validator) (o : Operation) : Bool :=
  o ∈ v.operations

/-- `require v o` refuses an operation that the backend lacks. -/
def require (v : Validator) (o : Operation) : Except Refusal Unit :=
  if v.supports o then .ok () else .error (.unsupported o)

/-- `check v o field value` refuses an operation that the backend lacks, and then a value that
does not have the operation's shape. -/
def check (v : Validator) (o : Operation) (field : String) (value : Json.Value) :
    Except Refusal Unit := do
  v.require o
  let shape := ValueShape.ofOperation o
  if shape.admits value then .ok () else .error (.invalid (.valueShape field shape))

theorem supports_full (o : Operation) : full.supports o := by
  simp [supports, full, Operation.mem_all]

theorem check_eq_ok_iff {v : Validator} {o : Operation} {field : String} {value : Json.Value} :
    v.check o field value = .ok () ↔
      v.supports o ∧ (ValueShape.ofOperation o).admits value := by
  simp only [check, require]
  cases v.supports o <;> cases (ValueShape.ofOperation o).admits value <;> simp [bind, Except.bind]

end Validator

end FacetQuery
