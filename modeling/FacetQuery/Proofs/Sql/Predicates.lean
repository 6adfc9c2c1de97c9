import FacetQuery.Backend.Sql
import FacetQuery.Proofs.Outcome
import FacetQuery.Sql.Pieces

/-!
# Sql — What a predicate asks for

`Predicate.Asks p e` says by which rules the condition `e` follows from the predicate `p`: a
comparison, a test for null, membership in a list or a range, always of the predicate's column with
literal values and nothing else.

* `Predicate.toExpr_eq_ok_iff`: these conditions are the ones that predicates are turned into.
* `Predicate.inexpressibly_toExpr`: predicates that are not hold something that cannot be expressed.
* `Expr.all`: conditions joined by `and`, the first ones innermost; without any, `true`.
-/

namespace FacetQuery

open Sql

/-! ### Single conditions -/

/-- `operator c` is the operator by which requests ask for the comparison `c`. -/
def Sql.Comparison.operator : Comparison → Operator
  | .equal          => .equal
  | .notEqual       => .notEqual
  | .lessOrGreater  => .lessOrGreater
  | .greater        => .greater
  | .greaterOrEqual => .greaterOrEqual
  | .less           => .less
  | .lessOrEqual    => .lessOrEqual
  | .like           => .like
  | .notLike        => .notLike
  | .ilike          => .ilike
  | .notIlike       => .notIlike

/-- A comparison is written as the operator that asks for it. -/
theorem Sql.Comparison.text_eq (c : Comparison) : c.text = " " ++ c.operator.name ++ " " := by
  cases c <;> rfl

namespace Predicate

/-- `Asks p e` says that `e` is the condition that `p` asks for. -/
inductive Asks : Predicate → Expr → Prop where
  /-- The column against the value, by the operator. -/
  | compare {field : String} {v : Json.Value} {l : Literal} (c : Comparison) :
      Literal.ofValue v = .ok l →
      Asks ⟨field, c.operator, v⟩ (.compare (.column field) c (.literal l))
  /-- Whether the column is null, whatever the value. -/
  | isNull {field : String} {v : Json.Value} (negated : Bool) :
      Asks ⟨field, if negated then .isNotNull else .isNull, v⟩ (.isNull (.column field) negated)
  /-- Whether the column is in the list. -/
  | member {field : String} {items : List Json.Value} {ls : List Literal} (negated : Bool) :
      items ≠ [] → List.Forall₂ (fun v l => Literal.ofValue v = .ok l) items ls →
      Asks ⟨field, if negated then .isNotIn else .isIn, .array items⟩
        (.member (.column field) negated (ls.map .literal))
  /-- Nothing is in the empty list, and everything is outside of it. -/
  | memberOfNone {field : String} (negated : Bool) :
      Asks ⟨field, if negated then .isNotIn else .isIn, .array []⟩ (.constant negated)
  /-- Whether the column is between the first two values of the list. -/
  | between {field : String} {low high : Json.Value} {more : List Json.Value} {l h : Literal}
      (negated : Bool) : Literal.ofValue low = .ok l → Literal.ofValue high = .ok h →
      Asks ⟨field, if negated then .notBetween else .between, .array (low :: high :: more)⟩
        (.between (.column field) negated (.literal l) (.literal h))

/-- An operator asks for a comparison, a test for null, membership or a range. -/
theorem operator_cases (op : Operator) :
    (∃ c : Comparison, op = c.operator) ∨
      (∃ negated : Bool, op = if negated then .isNotNull else .isNull) ∨
      (∃ negated : Bool, op = if negated then .isNotIn else .isIn) ∨
      ∃ negated : Bool, op = if negated then .notBetween else .between := by
  have comparison (c : Comparison) : ∃ c' : Comparison, c.operator = c'.operator := ⟨c, rfl⟩
  cases op with
  | equal          => exact .inl (comparison .equal)
  | notEqual       => exact .inl (comparison .notEqual)
  | lessOrGreater  => exact .inl (comparison .lessOrGreater)
  | greater        => exact .inl (comparison .greater)
  | greaterOrEqual => exact .inl (comparison .greaterOrEqual)
  | less           => exact .inl (comparison .less)
  | lessOrEqual    => exact .inl (comparison .lessOrEqual)
  | like           => exact .inl (comparison .like)
  | notLike        => exact .inl (comparison .notLike)
  | ilike          => exact .inl (comparison .ilike)
  | notIlike       => exact .inl (comparison .notIlike)
  | isNull         => exact .inr (.inl ⟨false, rfl⟩)
  | isNotNull      => exact .inr (.inl ⟨true, rfl⟩)
  | isIn           => exact .inr (.inr (.inl ⟨false, rfl⟩))
  | isNotIn        => exact .inr (.inr (.inl ⟨true, rfl⟩))
  | between        => exact .inr (.inr (.inr ⟨false, rfl⟩))
  | notBetween     => exact .inr (.inr (.inr ⟨true, rfl⟩))

variable {field : String} {v : Json.Value} {e : Expr}

theorem exprOfValue_eq_ok_iff :
    Expr.ofValue v = .ok e ↔ ∃ l, Literal.ofValue v = .ok l ∧ .literal l = e :=
  map_eq_ok_iff

/-- A list of operands is a list of literals, one for each item in the same order; one item that is
no scalar leaves none. -/
theorem mapM_exprOfValue_eq_ok_iff {items : List Json.Value} {es : List Expr} :
    items.mapM Expr.ofValue = .ok es ↔
      ∃ ls, List.Forall₂ (fun v l => Literal.ofValue v = .ok l) items ls ∧
        es = ls.map .literal := by
  simp only [mapM_eq_ok_iff, exprOfValue_eq_ok_iff]
  constructor
  · intro h
    induction h with
    | nil => exact ⟨[], .nil, rfl⟩
    | cons hv _ ih =>
        obtain ⟨l, hl, rfl⟩ := hv
        obtain ⟨ls, hls, rfl⟩ := ih
        exact ⟨l :: ls, .cons hl hls, rfl⟩
  · rintro ⟨ls, h, rfl⟩
    exact List.forall₂_map_right_iff.mpr (h.imp fun _ l hl => ⟨l, hl, rfl⟩)

theorem toExpr_comparison (c : Comparison) :
    toExpr ⟨field, c.operator, v⟩ = comparison ⟨field, c.operator, v⟩ c := by
  cases c <;> rfl

/-- A comparison that is built is one the predicate asks for: the column on the left, the literal on
the right. -/
theorem asks_of_comparison {c : Comparison}
    (h : comparison ⟨field, c.operator, v⟩ c = .ok e) : Asks ⟨field, c.operator, v⟩ e := by
  obtain ⟨x, hx, h⟩ := bind_eq_ok_iff.mp h
  obtain ⟨l, hl, rfl⟩ := exprOfValue_eq_ok_iff.mp hx
  cases h
  exact .compare c hl

theorem toExpr_isNull (negated : Bool) :
    toExpr ⟨field, if negated then .isNotNull else .isNull, v⟩
      = .ok (.isNull (.column field) negated) := by
  cases negated <;> rfl

theorem toExpr_membership (negated : Bool) :
    toExpr ⟨field, if negated then .isNotIn else .isIn, v⟩
      = membership ⟨field, if negated then .isNotIn else .isIn, v⟩ negated := by
  cases negated <;> rfl

/-- A membership test that is built is one the predicate asks for. An empty list gives a constant
condition, which has no column in it. -/
theorem asks_of_membership {negated : Bool}
    (h : membership ⟨field, if negated then .isNotIn else .isIn, v⟩ negated = .ok e) :
    Asks ⟨field, if negated then .isNotIn else .isIn, v⟩ e := by
  obtain ⟨items, hi, h⟩ := bind_eq_ok_iff.mp h
  cases v with
  | array vs =>
      cases hi
      split at h
      · cases h
        exact .memberOfNone negated
      · next hne =>
          obtain ⟨es, hes, h⟩ := bind_eq_ok_iff.mp h
          obtain ⟨ls, hls, rfl⟩ := mapM_exprOfValue_eq_ok_iff.mp hes
          cases h
          exact .member negated hne hls
  | _ => cases hi

theorem toExpr_range (negated : Bool) :
    toExpr ⟨field, if negated then .notBetween else .between, v⟩
      = range ⟨field, if negated then .notBetween else .between, v⟩ negated := by
  cases negated <;> rfl

/-- A range that is built is one the predicate asks for: from the first bound to the second. Items
behind these are not looked at. -/
theorem asks_of_range {negated : Bool}
    (h : range ⟨field, if negated then .notBetween else .between, v⟩ negated = .ok e) :
    Asks ⟨field, if negated then .notBetween else .between, v⟩ e := by
  obtain ⟨items, hi, h⟩ := bind_eq_ok_iff.mp h
  cases v with
  | array vs =>
      cases hi
      split at h
      · obtain ⟨x, hx, h⟩ := bind_eq_ok_iff.mp h
        obtain ⟨y, hy, h⟩ := bind_eq_ok_iff.mp h
        obtain ⟨l, hl, rfl⟩ := exprOfValue_eq_ok_iff.mp hx
        obtain ⟨k, hk, rfl⟩ := exprOfValue_eq_ok_iff.mp hy
        cases h
        exact .between negated hl hk
      · cases h
  | _ => cases hi

/-- **The condition of a predicate**: a predicate is turned into exactly what it asks for, for each
of the four ways that operators have. -/
theorem toExpr_eq_ok_iff {p : Predicate} : p.toExpr = .ok e ↔ p.Asks e := by
  constructor
  · intro h
    obtain ⟨field, op, v⟩ := p
    -- Four ways to ask, with an operator for each sign; the cases behind go the same way back.
    rcases operator_cases op with ⟨c, rfl⟩ | ⟨negated, rfl⟩ | ⟨negated, rfl⟩ | ⟨negated, rfl⟩
    · exact asks_of_comparison (toExpr_comparison c ▸ h)
    · cases (toExpr_isNull negated).symm.trans h
      exact .isNull negated
    · exact asks_of_membership (toExpr_membership negated ▸ h)
    · exact asks_of_range (toExpr_range negated ▸ h)
  · intro h
    cases h with
    | compare c hl =>
        rw [toExpr_comparison]
        exact bind_eq_ok_iff.mpr ⟨_, exprOfValue_eq_ok_iff.mpr ⟨_, hl, rfl⟩, rfl⟩
    | isNull negated => exact toExpr_isNull negated
    | @member _ items _ negated hne hls =>
        rw [toExpr_membership]
        refine bind_eq_ok_iff.mpr ⟨items, rfl, ?_⟩
        cases items with
        | nil => exact absurd rfl hne
        | cons v vs =>
            exact bind_eq_ok_iff.mpr ⟨_, mapM_exprOfValue_eq_ok_iff.mpr ⟨_, hls, rfl⟩, rfl⟩
    | memberOfNone negated =>
        rw [toExpr_membership]
        rfl
    | between negated hl hk =>
        rw [toExpr_range]
        refine bind_eq_ok_iff.mpr ⟨_, rfl, ?_⟩
        exact bind_eq_ok_iff.mpr ⟨_, exprOfValue_eq_ok_iff.mpr ⟨_, hl, rfl⟩,
          bind_eq_ok_iff.mpr ⟨_, exprOfValue_eq_ok_iff.mpr ⟨_, hk, rfl⟩, rfl⟩⟩

theorem Asks.unique {p : Predicate} {e' : Expr} (h : p.Asks e) (h' : p.Asks e') : e = e' :=
  Except.ok.inj ((toExpr_eq_ok_iff.mpr h).symm.trans (toExpr_eq_ok_iff.mpr h'))

/-- No predicate asks for the literal `true`, which counts as no condition. -/
theorem Asks.isTrue_eq_false {p : Predicate} (h : p.Asks e) : e.isTrue = false := by
  cases h <;> rfl

end Predicate

/-! ### Predicates without a condition -/

/-- `Inexpressibly x` says that `x` fails, if it does, because something cannot be expressed. -/
def Inexpressibly {α : Type} (x : Except Refusal α) : Prop :=
  ∀ e, x = .error e → ∃ what, e = .inexpressible what

namespace Inexpressibly

variable {α γ : Type}

theorem ok (a : α) : Inexpressibly (.ok a) := by
  intro e h
  cases h

theorem error (what : Inexpressible) :
    Inexpressibly (.error (.inexpressible what) : Except _ α) := by
  intro e h
  cases h
  exact ⟨what, rfl⟩

/-- What cannot be expressed in a part cannot be expressed in the whole. -/
theorem bind {x : Except Refusal α} {f : α → Except Refusal γ} (hx : Inexpressibly x)
    (hf : ∀ a, Inexpressibly (f a)) : Inexpressibly (x >>= f) := by
  rcases x with e | a
  · intro e' h
    cases h
    exact hx e rfl
  · exact hf a

/-- One item of a list that cannot be expressed is what the whole list fails with. -/
theorem mapM {f : α → Except Refusal γ} (hf : ∀ a, Inexpressibly (f a)) (xs : List α) :
    Inexpressibly (xs.mapM f) := by
  induction xs with
  | nil => exact ok []
  | cons x xs ih =>
      rw [List.mapM_cons]
      exact (hf x).bind fun y => ih.bind fun ys => ok _

end Inexpressibly

theorem Sql.Expr.inexpressibly_ofValue (v : Json.Value) : Inexpressibly (Expr.ofValue v) := by
  cases v with
  | array _  => exact .error .nestedArray
  | object _ => exact .error .object
  | _        => exact .ok _

namespace Predicate

theorem inexpressibly_items (p : Predicate) : Inexpressibly p.items := by
  unfold items
  split
  · exact .ok _
  · exact .error _

/-- A predicate that has no condition holds something that cannot be expressed. Nothing else is
refused here, for its operator is known. -/
theorem inexpressibly_toExpr (p : Predicate) : Inexpressibly p.toExpr := by
  obtain ⟨field, op, v⟩ := p
  rcases operator_cases op with ⟨c, rfl⟩ | ⟨negated, rfl⟩ | ⟨negated, rfl⟩ | ⟨negated, rfl⟩
  · rw [toExpr_comparison]
    exact (Expr.inexpressibly_ofValue v).bind fun _ => .ok _
  · rw [toExpr_isNull]
    exact .ok _
  · rw [toExpr_membership]
    refine (inexpressibly_items _).bind fun items => ?_
    split
    · exact .ok _
    · exact (Inexpressibly.mapM Expr.inexpressibly_ofValue _).bind fun _ => .ok _
  · rw [toExpr_range]
    refine (inexpressibly_items _).bind fun items => ?_
    split
    · exact (Expr.inexpressibly_ofValue _).bind fun _ =>
        (Expr.inexpressibly_ofValue _).bind fun _ => .ok _
    · exact .error _

end Predicate

/-! ### Conditions together -/

/-- `all es` joins conditions by `and`, the first ones innermost; without any it is `true`. -/
def Sql.Expr.all : List Expr → Expr
  | [] => .literal (.bool true)
  | e :: es => es.foldl .and e

theorem Sql.Expr.sizeOf_le_foldl_and (es : List Expr) (e : Expr) :
    sizeOf e ≤ sizeOf (es.foldl .and e) := by
  induction es generalizing e with
  | nil => exact Nat.le_refl _
  | cons e' es ih =>
      have h := ih (.and e e')
      rw [Expr.and.sizeOf_spec] at h
      exact Nat.le_trans (by omega) h

/-- Joining conditions makes a larger one, so it never gives back the one it began with. -/
theorem Sql.Expr.foldl_and_ne_self {es : List Expr} (h : es ≠ []) (e : Expr) :
    es.foldl .and e ≠ e := by
  intro heq
  cases es with
  | nil => exact h rfl
  | cons e' es =>
      have hle := sizeOf_le_foldl_and es (.and e e')
      rw [List.foldl_cons] at heq
      rw [heq, Expr.and.sizeOf_spec] at hle
      omega

theorem Sql.Expr.isTrue_foldl_and (es : List Expr) {e : Expr} (h : e.isTrue = false) :
    (es.foldl .and e).isTrue = false := by
  induction es generalizing e with
  | nil => exact h
  | cons e' es ih => exact ih rfl

end FacetQuery
