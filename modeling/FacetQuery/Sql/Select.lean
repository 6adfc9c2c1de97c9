import FacetQuery.Decimal.Binary64
import FacetQuery.Operator

/-!
# Sql — Queries

A query over one table: columns, a condition, an ordering and a limit. Equality is decidable.

- `Select.ofTable` is `select *` from a table, with nothing else.
- `Select.filter` adds a condition behind those that are there; the condition `true` counts as none.
-/

namespace FacetQuery.Sql

/-- An irreducible value. -/
inductive Literal where
  | int (i : Int)
  | float (x : Binary64)
  | bool (b : Bool)
  | string (s : String)
  | null
deriving DecidableEq, Repr

/-- A comparison of two expressions. -/
inductive Comparison where
  | equal
  | notEqual
  /-- `<>`, kept apart from `!=`. -/
  | lessOrGreater
  | greater
  | greaterOrEqual
  | less
  | lessOrEqual
  | like
  | notLike
  | ilike
  | notIlike
deriving DecidableEq, Repr

/-- A scalar expression. Operators that can be negated carry a flag. -/
inductive Expr where
  | and (left right : Expr)
  | compare (left : Expr) (op : Comparison) (right : Expr)
  | member (expr : Expr) (negated : Bool) (items : List Expr)
  | isNull (expr : Expr) (negated : Bool)
  | between (expr : Expr) (negated : Bool) (low high : Expr)
  | column (name : String)
  | literal (value : Literal)
deriving Repr

namespace Expr

/-! ### Decidable equality -/

mutual

/-- `same e f` compares two expressions part by part. -/
def same : Expr → Expr → Bool
  | .and l r, .and l' r' => same l l' && same r r'
  | .compare l op r, .compare l' op' r' => same l l' && op == op' && same r r'
  | .member e n items, .member e' n' items' => same e e' && n == n' && sameEach items items'
  | .isNull e n, .isNull e' n' => same e e' && n == n'
  | .between e n l h, .between e' n' l' h' => same e e' && n == n' && same l l' && same h h'
  | .column name, .column name' => name == name'
  | .literal v, .literal v' => v == v'
  | _, _ => false

/-- `sameEach es fs` compares two lists of expressions item by item. -/
def sameEach : List Expr → List Expr → Bool
  | [], [] => true
  | e :: es, f :: fs => same e f && sameEach es fs
  | _, _ => false

end

mutual

theorem same_iff : ∀ {e f : Expr}, e.same f = true ↔ e = f
  | .and _ _, f => by cases f <;> simp [same, same_iff]
  | .compare _ _ _, f => by cases f <;> simp [same, same_iff, and_assoc]
  | .member _ _ _, f => by cases f <;> simp [same, same_iff, sameEach_iff, and_assoc]
  | .isNull _ _, f => by cases f <;> simp [same, same_iff]
  | .between _ _ _ _, f => by cases f <;> simp [same, same_iff, and_assoc]
  | .column _, f => by cases f <;> simp [same]
  | .literal _, f => by cases f <;> simp [same]

theorem sameEach_iff : ∀ {es fs : List Expr}, sameEach es fs = true ↔ es = fs
  | [], fs => by cases fs <;> simp [sameEach]
  | _ :: _, fs => by cases fs <;> simp [sameEach, same_iff, sameEach_iff]

end

instance : DecidableEq Expr := fun _ _ => decidable_of_iff _ same_iff

/-! ### Conditions that always hold or never do -/

/-- `isTrue e` says that `e` is the literal `true`, which as a condition asks for nothing. -/
def isTrue : Expr → Bool
  | .literal (.bool true) => true
  | _ => false

/-- `constant b` is a condition that always holds, or never does, whatever the dialect. -/
def constant (holds : Bool) : Expr :=
  .compare (.literal (.int 1)) .equal (.literal (.int (if holds then 1 else 0)))

theorem isTrue_iff {e : Expr} : e.isTrue = true ↔ e = .literal (.bool true) := by
  unfold isTrue
  split
  · simp
  · next h => simp only [Bool.false_eq_true, false_iff]; exact h

@[simp] theorem isTrue_constant (holds : Bool) : (constant holds).isTrue = false := rfl

end Expr

/-- A table, in a database schema or without one. -/
structure Table where
  schema : Option String
  name : String
deriving DecidableEq, Repr

/-- One key of an ordering. -/
structure SortKey where
  target : Expr
  direction : Direction
deriving DecidableEq, Repr

/-- How many rows, and how many to skip first. -/
structure Limit where
  limit : Option UInt64
  offset : Option UInt64
deriving DecidableEq, Repr

/-- A query. -/
structure Select where
  /-- The columns, `none` for all of them. -/
  columns : Option (List String)
  source : Option Table
  condition : Expr
  orderBy : List SortKey
  limit : Limit
deriving DecidableEq, Repr

namespace Select

/-- `ofTable name` selects everything from a table. -/
def ofTable (name : String) : Select :=
  { columns := none
    source := some ⟨none, name⟩
    condition := .literal (.bool true)
    orderBy := []
    limit := ⟨none, none⟩ }

/-- `filter q e` also asks for `e`. -/
def filter (q : Select) (e : Expr) : Select :=
  { q with condition := if q.condition.isTrue then e else .and q.condition e }

/-- `orderedBy q key` orders by `key` where the keys before leave rows equal. -/
def orderedBy (q : Select) (key : SortKey) : Select :=
  { q with orderBy := q.orderBy ++ [key] }

/-- `limitedTo q limit` replaces the limit. -/
def limitedTo (q : Select) (limit : Limit) : Select :=
  { q with limit }

end Select

end FacetQuery.Sql
