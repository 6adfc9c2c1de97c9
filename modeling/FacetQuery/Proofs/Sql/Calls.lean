import FacetQuery.Proofs.Sql.Built

/-!
# Sql — Calls one after another

A backend takes calls in any order, with nothing checked before them, and some of them fail.  What
they leave of a query can be read off the calls that succeed, whatever the query was.

* `Backend.attempts`: calls made one after another, whether they succeed or not.
* `Sql.Select.Extended`: what calls make of a query; `Sql.Select.Extended.call`: what one more call
  does.
* `Backend.Chains`, `Backend.chains_sqlWith`: any calls on any query, in any dialect.
-/

namespace FacetQuery

open Sql

namespace BackendCall

/-- `predicate? c` is the predicate of a call that filters. -/
def predicate? : BackendCall → Option Predicate
  | .filter p => some p
  | _         => none

/-- `sortField? c` is the field of a call that sorts. -/
def sortField? : BackendCall → Option SortField
  | .sort f => some f
  | _       => none

/-- `page? c` is the page of a call that pages. -/
def page? : BackendCall → Option Page
  | .page p => some p
  | _       => none

end BackendCall

namespace Backend

variable {β : Type}

/-- `attempts b q cs` makes the calls `cs` one after another, whether they succeed or not: each
call with its outcome, and the query that they leave of `q`. -/
def attempts (b : Backend β) (q : β) :
    List BackendCall → List (BackendCall × Except Refusal Unit) × β
  | [] => ([], q)
  | c :: cs =>
      let (outcome, q') := (b.call c).run q
      let (log, q'') := attempts b q' cs
      ((c, outcome) :: log, q'')

/-- `succeeded log` are the calls that succeeded. -/
def succeeded (log : List (BackendCall × Except Refusal Unit)) : List BackendCall :=
  log.filterMap fun entry => match entry.2 with
    | .ok ()   => some entry.1
    | .error _ => none

/-- A call that succeeds is noted, and the next one goes on from the query it leaves. -/
theorem attempts_cons_ok {b : Backend β} {c : BackendCall} {cs : List BackendCall} {q q' : β}
    (h : (b.call c).run q = (.ok (), q')) :
    attempts b q (c :: cs) = ((c, .ok ()) :: (attempts b q' cs).1, (attempts b q' cs).2) := by
  simp only [attempts, h]

theorem attempts_cons_error {b : Backend β} {c : BackendCall} {cs : List BackendCall} {e : Refusal}
    {q q' : β} (h : (b.call c).run q = (.error e, q')) :
    attempts b q (c :: cs) = ((c, .error e) :: (attempts b q' cs).1, (attempts b q' cs).2) := by
  simp only [attempts, h]

end Backend

namespace Sql.Select

/-- `conditions q` is the condition of `q`, if it has one. -/
def conditions (q : Select) : List Expr :=
  if q.condition.isTrue then [] else [q.condition]

theorem all_conditions (q : Select) : .all q.conditions = q.condition := by
  unfold conditions
  split
  · next h => exact (Expr.isTrue_iff.mp h).symm
  · rfl

/-- A condition that is added stands behind the one that is there, and before those to come. -/
theorem all_conditions_filter (q : Select) {e : Expr} (he : e.isTrue = false) (es : List Expr) :
    Expr.all ((q.filter e).conditions ++ es) = .all (q.conditions ++ e :: es) := by
  cases hq : q.condition.isTrue with
  | true => simp [conditions, filter, hq, he]
  | false =>
      have hand : (Expr.and q.condition e).isTrue = false := rfl
      simp [conditions, filter, hq, hand, Expr.all]

/-- `Extended q calls made q'` says what `calls` make of the query `q`, if `made` are those of them
that succeed. -/
structure Extended (q : Select) (calls made : List BackendCall) (q' : Select) : Prop where
  columns : q'.columns = q.columns
  source : q'.source = q.source
  /-- One more condition for each predicate, in the order of the calls. -/
  condition : ∃ es, List.Forall₂ Predicate.Asks (made.filterMap (·.predicate?)) es ∧
    q'.condition = .all (q.conditions ++ es)
  /-- One more key for each field, in the order of the calls. -/
  orderBy : q'.orderBy = q.orderBy ++
    (made.filterMap (·.sortField?)).map fun f => ⟨.column f.field, f.order⟩
  /-- The rows of the last page. -/
  limit : q'.limit = (calls.filterMap (·.page?)).getLast?.elim q.limit
    fun p => ⟨some p.size, some p.offset⟩

namespace Extended

variable {q q₁ q' : Select} {calls made : List BackendCall} {c : BackendCall}

theorem refl (q : Select) : Extended q [] [] q where
  columns   := rfl
  source    := rfl
  condition := ⟨[], .nil, by rw [List.append_nil, all_conditions]⟩
  orderBy   := (List.append_nil _).symm
  limit     := rfl

/-- A call in front that fails, and changes nothing, does not count. -/
theorem skip (h : Extended q calls made q') (hc : c.page? = none) :
    Extended q (c :: calls) made q' := by
  refine ⟨h.columns, h.source, h.condition, h.orderBy, ?_⟩
  rw [List.filterMap_cons_none hc]
  exact h.limit

/-- **A call in front** that succeeds adds its own part: a condition before those to come, a key
before theirs, or rows that only a later page replaces. -/
theorem call {v : Validator} (hc : ((Backend.ofDialect v).call c).run q = (.ok (), q₁))
    (h : Extended q₁ calls made q') : Extended q (c :: calls) (c :: made) q' := by
  cases c with
  | filter p =>
      obtain ⟨-, e, he, rfl⟩ := Backend.run_filter_ok_iff.mp hc
      -- The conditions that come later stand behind this one.
      obtain ⟨es, hes, hcondition⟩ := h.condition
      refine ⟨h.columns, h.source, ⟨e :: es, .cons he hes, ?_⟩, h.orderBy, h.limit⟩
      rw [hcondition, all_conditions_filter q he.isTrue_eq_false]
  | sort f =>
      obtain ⟨-, rfl⟩ := Backend.run_sort_ok_iff.mp hc
      refine ⟨h.columns, h.source, h.condition, ?_, h.limit⟩
      rw [h.orderBy, orderedBy, List.append_assoc]
      rfl
  | page p =>
      obtain ⟨-, rfl⟩ := Backend.run_page_ok_iff.mp hc
      refine ⟨h.columns, h.source, h.condition, h.orderBy, ?_⟩
      -- A later page replaces this one, and without a later one this one is the last.
      have hp : (BackendCall.page p).page? = some p := rfl
      rw [h.limit, List.filterMap_cons_some hp, List.getLast?_cons]
      cases (calls.filterMap (·.page?)).getLast? <;> rfl

end Extended

end Sql.Select

/-- Calls ask whether they can be made before they change anything. -/
theorem Build.run_ofExcept_bind_error {β α γ : Type} {x : Except Refusal α} {f : α → Build β γ}
    {e : Refusal} {b b' : β} (h : (ofExcept x >>= f).run b = (.error e, b')) :
    b' = b ∨ ∃ a, (f a).run b = (.error e, b') := by
  rw [run_bind, run_ofExcept] at h
  rcases x with e' | a
  · exact .inl (Prod.mk.inj h).2.symm
  · exact .inr ⟨a, h⟩

theorem Build.run_modify_ne_error {β : Type} {f : β → β} {e : Refusal} {b b' : β} :
    (modify f : Build β Unit).run b ≠ (.error e, b') :=
  fun h => nomatch congrArg Prod.fst h

namespace Backend

variable {v : Validator} {q q' : Select}

/-- A call that fails leaves the query as it was: it asks for the operation and for the condition
first, and changes the query last. -/
theorem eq_of_run_call_error {c : BackendCall} {e : Refusal}
    (h : ((ofDialect v).call c).run q = (.error e, q')) : q' = q := by
  cases c with
  | filter p =>
      rcases Build.run_ofExcept_bind_error h with hq | ⟨_, h⟩
      · exact hq
      rcases Build.run_ofExcept_bind_error h with hq | ⟨_, h⟩
      · exact hq
      exact absurd h Build.run_modify_ne_error
  | sort f =>
      rcases Build.run_ofExcept_bind_error h with hq | ⟨_, h⟩
      · exact hq
      exact absurd h Build.run_modify_ne_error
  | page p =>
      rcases Build.run_ofExcept_bind_error h with hq | ⟨_, h⟩
      · exact hq
      exact absurd h Build.run_modify_ne_error

/-- **What calls make of a query** is what the successful ones add. Induction on the calls: each is
put in front of what those behind it have made. -/
theorem extended_attempts (ops : List Operator) (q : Select) (calls : List BackendCall) :
    Select.Extended q calls (succeeded (attempts (.sqlWith ops) q calls).1)
      (attempts (.sqlWith ops) q calls).2 := by
  induction calls generalizing q with
  | nil => exact .refl q
  | cons c calls ih =>
      rcases h : ((sqlWith ops).call c).run q with ⟨e | ⟨⟩, q₁⟩
      · -- A call that fails leaves the query, so the others are made as if it were not there.
        cases eq_of_run_call_error h
        rw [attempts_cons_error h]
        refine (ih _).skip ?_
        -- Every dialect pages.
        cases c with
        | page p => exact absurd h (run_page_ne_error (Validator.supports_ofOperators_page ops))
        | _      => rfl
      · rw [attempts_cons_ok h]
        exact (ih q₁).call h

/-- `Chains b` says what calls of the backend `b` make of queries. -/
structure Chains (b : Backend Select) : Prop where
  /-- A call that fails changes nothing. -/
  error : ∀ (c : BackendCall) (e : Refusal) (q q' : Select),
    (b.call c).run q = (.error e, q') → q' = q
  /-- The calls that succeed add up. -/
  extended : ∀ (q : Select) (calls : List BackendCall),
    q.Extended calls (succeeded (attempts b q calls).1) (attempts b q calls).2

/-- The full dialect is the one with all operators. -/
theorem sqlWith_all : sqlWith Operator.all = sql := rfl

/-- **Calls one after another**, in any dialect of SQL, make of any query what those that succeed
add to it, and the others leave no trace. -/
theorem chains_sqlWith (ops : List Operator) : (sqlWith ops).Chains where
  error _ _ _ _ := eq_of_run_call_error
  extended       := extended_attempts ops

/-- A comparison with `true` is a condition like any other, and so is `not in` of nothing. -/
example : (attempts sql (.ofTable "t")
    [.filter ⟨"a", .equal, .bool true⟩, .filter ⟨"a", .isIn, .null⟩,
      .filter ⟨"a", .isNotIn, .array []⟩]).2.condition
        = .and (.compare (.column "a") .equal (.literal (.bool true))) (.constant true) := by
  rfl

end Backend

end FacetQuery
