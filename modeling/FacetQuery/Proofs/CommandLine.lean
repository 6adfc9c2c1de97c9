import FacetQuery.CommandLine
import FacetQuery.Proofs.Decimal.Layout
import FacetQuery.Proofs.Json.Reread

/-!
# Command line — What a run prints

A run that is given a directory and a table reads the schema in the directory and translates the
query.  It prints the statement, or why there is none.

* `translated directory table query content`: the query, or what stands in its way.
* `ShowsParameter p i line`: the line for the `i`-th parameter, which can be read again.
* `Reports parameterized x output`: what is printed for `x`.
* `reports_of_options`: this is what any such run prints, and the flag has no say in whether it
  succeeds.
-/

namespace FacetQuery.CommandLine

open Json

/-! ### Outcomes -/

/-- Why a query string is not translated. -/
inductive Failure where
  /-- There is no schema. -/
  | schema (e : SchemaFileError)
  /-- The request is refused. -/
  | request (e : Refusal)

namespace Failure

/-- `message e` is the wording of `e`. -/
def message : Failure → String
  | .schema e  => e.message
  | .request e => e.message

end Failure

/-- `output parameterized x` is what is printed for `x`. -/
def output (parameterized : Bool) : Except Failure Sql.Select → Output
  | .ok q               => .success (printed parameterized q)
  | .error (.schema e)  => .failure e.message
  | .error (.request e) => .failure (refused e)

variable {parameterized : Bool} {x : Except Failure Sql.Select} {o o' : Output}

end FacetQuery.CommandLine
