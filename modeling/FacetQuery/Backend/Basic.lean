import FacetQuery.Schema.Basic
import FacetQuery.Validator

/-!
# Backend — What a backend offers

A backend builds some kind of query by filtering, sorting and paging. A call may change the query
under construction, refuse, or both.

- `Page.numbered` is the only way in which requests choose rows: the offset follows from the size
  and the number of the page.
-/

namespace FacetQuery

/-- A condition on one field. -/
structure Predicate where
  field : String
  op : Operator
  value : Json.Value
deriving DecidableEq

/-- A window of rows. -/
structure Page where
  size : UInt64
  /-- The number of the page, counted from one. -/
  number : UInt64
  /-- The rows before the page. -/
  offset : UInt64
deriving DecidableEq, Repr

/-- `saturated n` is `n`, or the greatest 64-bit number if `n` is larger. -/
def saturated (n : Nat) : UInt64 :=
  UInt64.ofNat (min n 0xFFFFFFFFFFFFFFFF)

namespace Page

/-- `numbered size number` is the page `number` of pages of `size` rows. -/
def numbered (size number : UInt64) : Page :=
  ⟨size, number, saturated ((number.toNat - 1) * size.toNat)⟩

end Page

/-- A computation on a query under construction that may be refused. -/
abbrev Build (β : Type) (α : Type) := ExceptT Refusal (StateM β) α

namespace Build

variable {α β : Type}

/-- `run m b` is the outcome of `m` from `b` on, and the query it leaves. -/
def run (m : Build β α) (b : β) : Except Refusal α × β :=
  ExceptT.run m b

/-- `ofExcept e` changes nothing. -/
def ofExcept (e : Except Refusal α) : Build β α :=
  ExceptT.mk (pure e)

@[simp] theorem run_ofExcept (e : Except Refusal α) (b : β) : run (ofExcept e) b = (e, b) := rfl

@[simp] theorem run_pure (a : α) (b : β) : run (pure a) b = (.ok a, b) := rfl

theorem run_bind {γ : Type} (m : Build β α) (f : α → Build β γ) (b : β) :
    run (m >>= f) b = match run m b with
      | (.ok a, b') => run (f a) b'
      | (.error e, b') => (.error e, b') := by
  simp only [run, ExceptT.run, bind, ExceptT.bind, ExceptT.mk, ExceptT.bindCont, StateT.bind]
  rcases h : m b with ⟨r, b'⟩
  cases r <;> rfl

end Build

/-- A backend that builds queries of type `β`. -/
structure Backend (β : Type) where
  /-- What the backend implements. -/
  validator : Validator
  filter : Predicate → Build β Unit
  /-- Adds a key; keys apply in the order of the calls. -/
  sort : SortField → Build β Unit
  page : Page → Build β Unit

end FacetQuery
