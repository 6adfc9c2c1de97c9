import FacetQuery.Proofs.Facet.Verdict

/-!
# Facet — Predicates that SQL cannot express

A filter that passes has values of the right kinds, but what is inside an array is not looked at.
That is all that can go wrong when its predicates are turned into conditions.

* `Predicate.Stuck p what`: in its array `p` holds `what`, for which there is no SQL, or lacks it.
* `Predicate.toExpr_eq_error_iff`: for a value of the right kind, there is no other reason to fail.
* `Filter.Entry.Stuck`: the same of an entry, with the operator's name in place of the operator.
-/

namespace FacetQuery

open Json Sql

/-- `Compound v what` says that the value `v` is an array or an object, which `what` tells. -/
inductive Compound : Value → Inexpressible → Prop where
  | array (vs : List Value) : Compound (.array vs) .nestedArray
  | object (members : List (String × Value)) : Compound (.object members) .object

/-- `IsCompound v` says that `v` is an array or an object. -/
def IsCompound (v : Value) : Prop := ∃ what, Compound v what

namespace Predicate

/-- `Stuck p what` says that `p` has no condition in SQL because of `what`. -/
inductive Stuck : Predicate → Inexpressible → Prop where
  /-- The first array or object in a list. -/
  | item {field : String} {op : Operator} {items : List Value} {v : Value} {what : Inexpressible} :
      op.cls = .setMembership → First IsCompound items v → Compound v what →
      Stuck ⟨field, op, .array items⟩ what
  /-- A range without two bounds. -/
  | unbounded {field : String} {op : Operator} {items : List Value} :
      op.cls = .range → items.length < 2 → Stuck ⟨field, op, .array items⟩ (.missingBounds op)
  /-- The first array or object among the two bounds of a range. -/
  | bound {field : String} {op : Operator} {low high v : Value} {more : List Value}
      {what : Inexpressible} : op.cls = .range → First IsCompound [low, high] v →
      Compound v what → Stuck ⟨field, op, .array (low :: high :: more)⟩ what

variable {field : String} {v low high : Value} {items more : List Value} {what : Inexpressible}
  {e : Refusal}

/-- A value has no SQL if it is an array or an object, and the message says which. -/
theorem exprOfValue_eq_error_iff :
    Expr.ofValue v = .error e ↔ ∃ what, Compound v what ∧ e = .inexpressible what := by
  constructor
  · intro h
    cases v with
    | array vs  => cases h; exact ⟨_, .array vs, rfl⟩
    | object ms => cases h; exact ⟨_, .object ms, rfl⟩
    | _         => cases h
  · rintro ⟨what, hv, rfl⟩
    cases hv <;> rfl

theorem fails_exprOfValue_iff : Fails Expr.ofValue v ↔ IsCompound v := by
  simp only [Fails, exprOfValue_eq_error_iff]
  constructor
  · rintro ⟨_, what, hv, -⟩
    exact ⟨what, hv⟩
  · rintro ⟨what, hv⟩
    exact ⟨_, what, hv, rfl⟩

/-- A list of values fails with the first array or object in it. -/
theorem mapM_exprOfValue_eq_error_iff :
    items.mapM Expr.ofValue = .error e ↔
      ∃ what, (∃ v, First IsCompound items v ∧ Compound v what) ∧ e = .inexpressible what := by
  rw [mapM_eq_error_iff]
  constructor
  · rintro ⟨v, hv, h⟩
    obtain ⟨what, hwhat, rfl⟩ := exprOfValue_eq_error_iff.mp h
    exact ⟨what, ⟨v, hv.congr fun _ _ => fails_exprOfValue_iff, hwhat⟩, rfl⟩
  · rintro ⟨what, ⟨v, hv, hwhat⟩, rfl⟩
    exact ⟨v, hv.congr fun _ _ => fails_exprOfValue_iff.symm,
      exprOfValue_eq_error_iff.mpr ⟨what, hwhat, rfl⟩⟩

/-! ### Operator by operator -/

/-- The values to compare with are no arrays and no objects. -/
theorem not_isCompound_of_takes {c : Comparison} (h : c.operator.cls.Takes v) :
    ¬ IsCompound v := by
  rintro ⟨_, ⟨⟩⟩ <;> cases c <;> cases h

/-- A comparison takes no arrays and no objects, so it has a condition. -/
theorem toExpr_comparison_ne_error {c : Comparison} (ht : c.operator.cls.Takes v) :
    toExpr ⟨field, c.operator, v⟩ ≠ .error e := by
  rw [toExpr_comparison]
  intro h
  rcases bind_eq_error_iff.mp h with h | ⟨_, _, h⟩
  · exact not_isCompound_of_takes ht (fails_exprOfValue_iff.mp ⟨e, h⟩)
  · cases h

theorem not_stuck_comparison (c : Comparison) : ¬ Stuck ⟨field, c.operator, v⟩ what := by
  intro h
  cases h <;> cases c <;> contradiction

theorem not_stuck_isNull (negated : Bool) :
    ¬ Stuck ⟨field, if negated then .isNotNull else .isNull, v⟩ what := by
  intro h
  cases h <;> cases negated <;> contradiction

/-- A membership test has a condition unless an item has no SQL. -/
theorem toExpr_membership_eq_error_iff (negated : Bool) :
    toExpr ⟨field, if negated then .isNotIn else .isIn, .array items⟩ = .error e ↔
      items.mapM Expr.ofValue = .error e := by
  rw [toExpr_membership]
  cases items with
  | nil => exact ⟨nofun, nofun⟩
  | cons v vs =>
      constructor
      · intro h
        rcases bind_eq_error_iff.mp h with h | ⟨vs', hvs, h⟩
        · cases h
        · cases hvs
          rcases bind_eq_error_iff.mp h with h | ⟨_, _, h⟩
          · exact h
          · cases h
      · exact fun h =>
          bind_eq_error_iff.mpr (.inr ⟨_, rfl, bind_eq_error_iff.mpr (.inl h)⟩)

theorem stuck_membership_iff (negated : Bool) :
    Stuck ⟨field, if negated then .isNotIn else .isIn, .array items⟩ what ↔
      ∃ v, First IsCompound items v ∧ Compound v what := by
  constructor
  · intro h
    cases h with
    | item _ hv hwhat => exact ⟨_, hv, hwhat⟩
    | unbounded hc    => cases negated <;> cases hc
    | bound hc        => cases negated <;> cases hc
  · rintro ⟨v, hv, hwhat⟩
    exact .item (by cases negated <;> rfl) hv hwhat

/-- Only the two bounds of a range are turned into SQL. -/
theorem toExpr_range_eq_error_iff (negated : Bool) :
    toExpr ⟨field, if negated then .notBetween else .between, .array (low :: high :: more)⟩
        = .error e ↔ [low, high].mapM Expr.ofValue = .error e := by
  rw [toExpr_range]
  cases hlow : Expr.ofValue low with
  | error _ => simp [range, Predicate.items, hlow, bind, Except.bind]
  | ok _ => cases hhigh : Expr.ofValue high with
    | error _ => simp [range, Predicate.items, hlow, hhigh, bind, Except.bind]
    | ok _ => simp [range, Predicate.items, hlow, hhigh, bind, Except.bind, pure, Except.pure]

/-- A range is stuck at the first of its two bounds that is one. -/
theorem stuck_range_iff (negated : Bool) :
    Stuck ⟨field, if negated then .notBetween else .between, .array (low :: high :: more)⟩ what ↔
      ∃ v, First IsCompound [low, high] v ∧ Compound v what := by
  constructor
  · intro h
    cases h with
    | item hc            => cases negated <;> cases hc
    | unbounded _ hshort => simp only [List.length_cons] at hshort; omega
    | bound _ hv hwhat   => exact ⟨_, hv, hwhat⟩
  · rintro ⟨v, hv, hwhat⟩
    exact .bound (by cases negated <;> rfl) hv hwhat

theorem toExpr_range_of_length_lt (negated : Bool) (h : items.length < 2) :
    toExpr ⟨field, if negated then .notBetween else .between, .array items⟩
      = .error (.inexpressible (.missingBounds (if negated then .notBetween else .between))) := by
  rw [toExpr_range]
  rcases items with _ | ⟨v, _ | ⟨w, vs⟩⟩
  · rfl
  · rfl
  · simp only [List.length_cons] at h
    omega

theorem stuck_range_of_length_lt_iff (negated : Bool) (h : items.length < 2) :
    Stuck ⟨field, if negated then .notBetween else .between, .array items⟩ what ↔
      what = .missingBounds (if negated then .notBetween else .between) := by
  constructor
  · intro hs
    cases hs with
    | item hc     => cases negated <;> cases hc
    | unbounded _ => rfl
    | bound _     => simp only [List.length_cons] at h; omega
  · rintro rfl
    exact .unbounded (by cases negated <;> rfl) h

/-- **A predicate with a value of the right kind** has a condition unless it is stuck. Operator by
operator, for each class of them once. -/
theorem toExpr_eq_error_iff {p : Predicate} (ht : p.op.cls.Takes p.value) :
    p.toExpr = .error e ↔ ∃ what, p.Stuck what ∧ e = .inexpressible what := by
  obtain ⟨field, op, v⟩ := p
  rcases operator_cases op with ⟨c, rfl⟩ | ⟨negated, rfl⟩ | ⟨negated, rfl⟩ | ⟨negated, rfl⟩
  · simp [toExpr_comparison_ne_error ht, not_stuck_comparison]
  · simp [toExpr_isNull, not_stuck_isNull]
  · obtain ⟨items, rfl⟩ : ∃ items, v = .array items := by
      cases negated <;> cases ht <;> exact ⟨_, rfl⟩
    simp only [toExpr_membership_eq_error_iff, stuck_membership_iff,
      mapM_exprOfValue_eq_error_iff]
  · obtain ⟨items, rfl⟩ : ∃ items, v = .array items := by
      cases negated <;> cases ht <;> exact ⟨_, rfl⟩
    match items with
    | [] | [_] =>
        simp [toExpr_range_of_length_lt, stuck_range_of_length_lt_iff, eq_comm]
    | low :: high :: more =>
        simp only [toExpr_range_eq_error_iff, stuck_range_iff, mapM_exprOfValue_eq_error_iff]

end Predicate

/-! ### Entries -/

/-- `express p` says whether `p` has a condition in SQL, or else why it has none. -/
def Predicate.express (p : Predicate) : Except Refusal Unit :=
  p.toExpr.map fun _ => ()

/-- What is said of a predicate is what is said when its condition is asked for. -/
theorem Predicate.express_eq_error_iff {p : Predicate} {e : Refusal} :
    p.express = .error e ↔ p.toExpr = .error e := by
  unfold express
  cases p.toExpr <;> simp [Except.map]

namespace Filter

/-- `Stuck x what` says that an entry of a filter has no condition in SQL because of `what`. -/
def Entry.Stuck (x : Entry) (what : Inexpressible) : Prop :=
  ∃ op : Operator, op.name = x.name ∧ Predicate.Stuck ⟨x.field, op, x.value⟩ what

/-- `IsStuck x` says that an entry of a filter has no condition in SQL. -/
def Entry.IsStuck (x : Entry) : Prop := ∃ what, x.Stuck what

variable {p : Predicate} {ps : List Predicate} {e : Refusal}

theorem stuck_entry_iff {what : Inexpressible} : (entry p).Stuck what ↔ p.Stuck what := by
  constructor
  · rintro ⟨op, hname, h⟩
    cases Operator.name_injective hname
    exact h
  · exact fun h => ⟨p.op, rfl, h⟩

theorem express_eq_error_iff (ht : p.op.cls.Takes p.value) :
    p.express = .error e ↔ ∃ what, (entry p).Stuck what ∧ e = .inexpressible what := by
  simp only [Predicate.express_eq_error_iff, Predicate.toExpr_eq_error_iff ht, stuck_entry_iff]

theorem fails_express_iff (ht : p.op.cls.Takes p.value) :
    Fails Predicate.express p ↔ (entry p).IsStuck := by
  simp only [Fails, express_eq_error_iff ht]
  constructor
  · rintro ⟨_, what, h, -⟩
    exact ⟨what, h⟩
  · rintro ⟨what, h⟩
    exact ⟨_, what, h, rfl⟩

/-- Predicates with values of the right kinds have conditions if none of their entries is stuck. -/
theorem forM_express_eq_ok_iff (ht : ∀ p ∈ ps, p.op.cls.Takes p.value) :
    ps.forM Predicate.express = .ok () ↔ ∀ x ∈ ps.map entry, ¬ x.IsStuck := by
  rw [forM_eq_ok_iff, List.forall_mem_map]
  refine forall₂_congr fun p hp => ?_
  rw [← fails_express_iff (ht p hp), not_fails_iff]

/-- If some entry is stuck, the first one that is says why. Those behind it are not looked at. -/
theorem forM_express_eq_error_iff (ht : ∀ p ∈ ps, p.op.cls.Takes p.value) :
    ps.forM Predicate.express = .error e ↔
      ∃ x what, First Entry.IsStuck (ps.map entry) x ∧ x.Stuck what ∧ e = .inexpressible what := by
  rw [forM_eq_error_iff]
  constructor
  · rintro ⟨p, hp, he⟩
    obtain ⟨what, hwhat, rfl⟩ := (express_eq_error_iff (ht p hp.mem)).mp he
    have hfirst := hp.congr fun p' hp' => fails_express_iff (ht p' hp')
    exact ⟨entry p, what, first_map_iff.mpr ⟨p, hfirst, rfl⟩, hwhat, rfl⟩
  · rintro ⟨x, what, hx, hwhat, rfl⟩
    obtain ⟨p, hp, rfl⟩ := first_map_iff.mp hx
    exact ⟨p, hp.congr fun p' hp' => (fails_express_iff (ht p' hp')).symm,
      (express_eq_error_iff (ht p hp.mem)).mpr ⟨what, hwhat, rfl⟩⟩

end Filter

end FacetQuery
