import FacetQuery.Backend.Basic

/-!
# Backend — Recording

A backend that writes down the calls it gets and never refuses one.
-/

namespace FacetQuery

/-- A call of a backend. -/
inductive BackendCall where
  | filter (p : Predicate)
  | sort (s : SortField)
  | page (p : Page)
deriving DecidableEq

namespace Backend

/-- `call b c` makes the call `c`. -/
def call {β : Type} (b : Backend β) : BackendCall → Build β Unit
  | .filter p => b.filter p
  | .sort s => b.sort s
  | .page p => b.page p

/-- `recorder v` lists the calls in their order, and lets `v` validate. -/
def recorder (v : Validator) : Backend (List BackendCall) where
  validator := v
  filter p := modify (· ++ [.filter p])
  sort s := modify (· ++ [.sort s])
  page p := modify (· ++ [.page p])

@[simp] theorem run_call_recorder (v : Validator) (c : BackendCall) (calls : List BackendCall) :
    ((recorder v).call c).run calls = (.ok (), calls ++ [c]) := by
  cases c <;> rfl

end Backend

end FacetQuery
