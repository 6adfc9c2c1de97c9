import FacetQuery.Backend.Basic
import FacetQuery.Request

/-!
# Facet — Paging

A request chooses the number of its page. The size of pages is the schema's.
-/

namespace FacetQuery.Paging

open Json

/-- The name of the parameter. -/
def parameter : String := "page"

/-- `number r` is what the request gives as the number of its page, or the schema's. -/
def number (r : Request) : Value :=
  (r.param? parameter).getD (.ofUInt64 r.schema.page.defaultNumber)

/-- `validate v r` checks the page of the request. -/
def validate (v : Validator) (r : Request) : Except Refusal Unit :=
  match r.param? parameter with
  | none => .ok ()
  | some value => do
      v.check .page parameter value
      match value.asUInt64? with
      | some n => if 1 ≤ n then .ok () else .error (.invalid .pageNotPositive)
      | none => .error (.invalid .pageNotPositive)

/-- `flat r` lists size, number and offset. A number that is no count has no offset. -/
def flat (r : Request) : Dictionary Value :=
  let size := r.schema.page.defaultSize
  let offset := (number r).asUInt64?.elim .null fun n => .ofUInt64 (Page.numbered size n).offset
  [("size", .ofUInt64 size), ("number", number r), ("offset", offset)]

/-- `apply b params` pages by the listed size and number. -/
def apply {β : Type} (b : Backend β) (params : Dictionary Value) : Build β Unit :=
  let get name := (Dictionary.find? name params).bind Value.asUInt64?
  match get "size", get "number" with
  | some size, some n => b.page (.numbered size n)
  | _, _ => throw (.invalid (.valueShape parameter .number))

end FacetQuery.Paging
