import FacetQuery.Json.Schema
import FacetQuery.Proofs.Json.Grammar
import FacetQuery.Proofs.Json.Reader.Scaled
import Mathlib.Algebra.Order.Field.Rat
import Mathlib.Data.List.Forall2
import Mathlib.Data.Rat.Defs

/-!
# Json — What a description says of a value

The meaning of the keywords of a description, after draft 7 of JSON Schema. It is said of values as
they are written, so that it does not depend on what any reader makes of them.

* `NumberParts.toRat`: what a number is worth; `Tree.HasType` and `Tree.Same` go by it, so that `1`,
  `1.0` and `10e-1` are one integer.
* `Keyword.Holds`: what a keyword says of a value. Keywords about one kind of value hold of all
  others.
* `Document.Describes`: all keywords hold; beside a reference the other keywords say nothing.
-/

namespace FacetQuery.Json

/-- `toRat p` is what the number with the parts `p` is worth, however great it is and however many
digits it has. -/
def NumberParts.toRat (p : NumberParts) : ℚ :=
  (if p.negative then -1 else 1) *
    ((digitsValue p.whole + digitsValue p.fractionDigits / 10 ^ p.fractionDigits.length) *
      10 ^ p.power)

/-- A number without point and exponent is worth what its digits are, with its sign. -/
theorem NumberParts.toRat_of_whole {p : NumberParts} (hfraction : p.fraction = none)
    (hexponent : p.exponent = none) :
    p.toRat = (if p.negative then -1 else 1) * digitsValue p.whole := by
  simp [toRat, fractionDigits, power, hfraction, hexponent, digitsValue]

/-- `toRat n` is what a number is worth that stands in a description. -/
def Number.toRat : Number → ℚ
  | .whole i  => i.val
  | .real x _ => (if x.isNegative then -1 else 1) * (x.units / 2 ^ 1074)

namespace Tree

/-- `HasType name v`: the value is of the type of that name. Integers are the numbers without a
fraction, however they are written. -/
def HasType (name : String) : Tree → Prop
  | .null     => name = "null"
  | .bool _   => name = "boolean"
  | .string _ => name = "string"
  | .array _  => name = "array"
  | .object _ => name = "object"
  | .number p => name = "number" ∨ name = "integer" ∧ ∃ i : ℤ, p.toRat = i

section

variable {v : Tree}

@[simp] theorem hasType_null_iff : v.HasType "null" ↔ v = .null := by
  cases v <;> simp [HasType]

@[simp] theorem hasType_boolean_iff : v.HasType "boolean" ↔ ∃ b, v = .bool b := by
  cases v <;> simp [HasType]

@[simp] theorem hasType_string_iff : v.HasType "string" ↔ ∃ s, v = .string s := by
  cases v <;> simp [HasType]

@[simp] theorem hasType_array_iff : v.HasType "array" ↔ ∃ items, v = .array items := by
  cases v <;> simp [HasType]

@[simp] theorem hasType_object_iff : v.HasType "object" ↔ ∃ members, v = .object members := by
  cases v <;> simp [HasType]

/-- A number is an integer by its worth, and not by how it is written. -/
@[simp] theorem hasType_integer_iff :
    v.HasType "integer" ↔ ∃ p, v = .number p ∧ ∃ i : ℤ, p.toRat = i := by
  cases v <;> simp [HasType]

end

mutual

/-- `Same v w`: the values are equal, where numbers go by what they are worth and the order of
members does not count. Strings with half a surrogate pair in them are not kept apart, and so no two
of them are called the same. -/
inductive Same : Tree → Tree → Prop
  | null : Same .null .null
  | bool (b : Bool) : Same (.bool b) (.bool b)
  | number {p q : NumberParts} : p.toRat = q.toRat → Same (.number p) (.number q)
  | string (s : String) : Same (.string (some s)) (.string (some s))
  | array {vs ws : List Tree} : SameItems vs ws → Same (.array vs) (.array ws)
  | object {ms ms' ns : List (Option String × Tree)} :
      ms.Perm ms' → SameMembers ms' ns → Same (.object ms) (.object ns)

/-- `SameItems vs ws`: the same values in the same places. -/
inductive SameItems : List Tree → List Tree → Prop
  | nil : SameItems [] []
  | cons {v w : Tree} {vs ws : List Tree} :
      Same v w → SameItems vs ws → SameItems (v :: vs) (w :: ws)

/-- `SameMembers ms ns`: the same values under the same keys. -/
inductive SameMembers : List (Option String × Tree) → List (Option String × Tree) → Prop
  | nil : SameMembers [] []
  | cons {k : String} {v w : Tree} {ms ns : List (Option String × Tree)} :
      Same v w → SameMembers ms ns → SameMembers ((some k, v) :: ms) ((some k, w) :: ns)

end

/-- Strings are the same if they say the same. -/
theorem same_string_iff {s t : String} : Same (.string (some s)) (.string (some t)) ↔ s = t :=
  ⟨fun h => by cases h; rfl, fun h => h ▸ .string s⟩

end Tree

namespace Keyword

/-- `isAnnotation k`: the keyword says nothing of the value itself. -/
def isAnnotation : Keyword → Bool
  | dialect _ | title _ | description _ | default _ | format _ | openMembers | definitions _ => true
  | _ => false

/-- `isRef k`: the keyword is a reference. -/
def isRef : Keyword → Bool
  | ref _ => true
  | _     => false

end Keyword

namespace Document

/-- `applied d` are the keywords of `d` that count: its reference alone, if it has one. -/
def applied (d : Document) : Document :=
  match d.find? Keyword.isRef with
  | some k => [k]
  | none   => d

/-- `defined d` are the definitions that the references in `d` name. -/
def defined : Document → Dictionary Document
  | []                     => []
  | .definitions defs :: _ => defs
  | _ :: d                 => defined d

end Document

/-- `Keyword.Holds defs k v`: the keyword holds of the value, its references taken from `defs`. -/
inductive Keyword.Holds (defs : Dictionary Document) : Keyword → Tree → Prop
  | remark {k : Keyword} {v : Tree} : k.isAnnotation = true → Holds defs k v
  | ref {name : String} {d : Document} {v : Tree} :
      Dictionary.find? name defs = some d → (∀ k ∈ d.applied, Holds defs k v) →
      Holds defs (.ref name) v
  | type {names : List String} {v : Tree} :
      (∃ name ∈ names, v.HasType name) → Holds defs (.type names) v
  | enum {values : List String} {v : Tree} :
      (∃ s ∈ values, v = .string (some s)) → Holds defs (.enum values) v
  | allOf {ds : List Document} {v : Tree} :
      (∀ d ∈ ds, ∀ k ∈ d.applied, Holds defs k v) → Holds defs (.allOf ds) v
  | minimum {bound : Number} {v : Tree} :
      (∀ p, v = .number p → bound.toRat ≤ p.toRat) → Holds defs (.minimum bound) v
  | items {d : Document} {v : Tree} :
      (∀ vs, v = .array vs → ∀ x ∈ vs, ∀ k ∈ d.applied, Holds defs k x) → Holds defs (.items d) v
  | uniqueItems {v : Tree} :
      (∀ vs, v = .array vs → vs.Pairwise fun x y => ¬ x.Same y) → Holds defs .uniqueItems v
  | required {names : List String} {v : Tree} :
      (∀ ms, v = .object ms → ∀ name ∈ names, some name ∈ ms.map Prod.fst) →
      Holds defs (.required names) v
  | properties {ps : List (String × Document)} {v : Tree} :
      (∀ ms, v = .object ms → ∀ p ∈ ps, ∀ x, (some p.1, x) ∈ ms → ∀ k ∈ p.2.applied, Holds defs k x) →
      Holds defs (.properties ps) v

namespace Document

/-- `Holds defs d v`: what `d` says holds of the value. -/
def Holds (defs : Dictionary Document) (d : Document) (v : Tree) : Prop :=
  ∀ k ∈ d.applied, Keyword.Holds defs k v

/-- `Describes d v`: the value is as the description `d` says. -/
def Describes (d : Document) (v : Tree) : Prop :=
  Holds d.defined d v

end Document

/-! ### Keyword by keyword -/

namespace Keyword

variable {defs : Dictionary Document} {v : Tree}

/-- Annotations hold of every value: they are there for readers. -/
@[simp] theorem holds_description (text : String) : Holds defs (.description text) v :=
  .remark rfl

@[simp] theorem holds_default (w : Value) : Holds defs (.default w) v :=
  .remark rfl

@[simp] theorem holds_format (name : String) : Holds defs (.format name) v :=
  .remark rfl

@[simp] theorem holds_openMembers : Holds defs .openMembers v :=
  .remark rfl

@[simp] theorem holds_definitions (ds : List (String × Document)) :
    Holds defs (.definitions ds) v :=
  .remark rfl

@[simp] theorem holds_dialect (uri : String) : Holds defs (.dialect uri) v :=
  .remark rfl

@[simp] theorem holds_title (text : String) : Holds defs (.title text) v :=
  .remark rfl

/-- A reference stands for the document of its name. There must be one: a name that is not defined
describes nothing. -/
theorem holds_ref_iff {name : String} {d : Document} (h : Dictionary.find? name defs = some d) :
    Holds defs (.ref name) v ↔ Document.Holds defs d v := by
  constructor
  · intro hv
    cases hv with
    | remark hk => cases hk
    | ref hd hv =>
        cases h.symm.trans hd
        exact hv
  · exact .ref h

@[simp] theorem holds_type_iff {names : List String} :
    Holds defs (.type names) v ↔ ∃ name ∈ names, v.HasType name := by
  refine ⟨fun h => ?_, .type⟩
  cases h with
  | remark hk => cases hk
  | type h => exact h

@[simp] theorem holds_enum_iff {values : List String} :
    Holds defs (.enum values) v ↔ ∃ s ∈ values, v = .string (some s) := by
  refine ⟨fun h => ?_, .enum⟩
  cases h with
  | remark hk => cases hk
  | enum h => exact h

@[simp] theorem holds_allOf_iff {ds : List Document} :
    Holds defs (.allOf ds) v ↔ ∀ d ∈ ds, Document.Holds defs d v := by
  refine ⟨fun h => ?_, .allOf⟩
  cases h with
  | remark hk => cases hk
  | allOf h => exact h

/-- A bound is about numbers, and holds of everything else. -/
@[simp] theorem holds_minimum_iff {bound : Number} :
    Holds defs (.minimum bound) v ↔ ∀ p, v = .number p → bound.toRat ≤ p.toRat := by
  refine ⟨fun h => ?_, .minimum⟩
  cases h with
  | remark hk => cases hk
  | minimum h => exact h

/-- What is said of items is about lists, and holds of everything else. -/
@[simp] theorem holds_items_iff {d : Document} :
    Holds defs (.items d) v ↔ ∀ vs, v = .array vs → ∀ x ∈ vs, Document.Holds defs d x := by
  refine ⟨fun h => ?_, .items⟩
  cases h with
  | remark hk => cases hk
  | items h => exact h

@[simp] theorem holds_uniqueItems_iff :
    Holds defs .uniqueItems v ↔ ∀ vs, v = .array vs → vs.Pairwise fun x y => ¬ x.Same y := by
  refine ⟨fun h => ?_, .uniqueItems⟩
  cases h with
  | remark hk => cases hk
  | uniqueItems h => exact h

/-- What is said of members is about objects. Required keys must be there, and other keys may be. -/
@[simp] theorem holds_required_iff {names : List String} :
    Holds defs (.required names) v ↔
      ∀ ms, v = .object ms → ∀ name ∈ names, some name ∈ ms.map Prod.fst := by
  refine ⟨fun h => ?_, .required⟩
  cases h with
  | remark hk => cases hk
  | required h => exact h

/-- A property is about all members under its key. -/
@[simp] theorem holds_properties_iff {ps : List (String × Document)} :
    Holds defs (.properties ps) v ↔
      ∀ ms, v = .object ms → ∀ p ∈ ps, ∀ x, (some p.1, x) ∈ ms → Document.Holds defs p.2 x := by
  refine ⟨fun h => ?_, .properties⟩
  cases h with
  | remark hk => cases hk
  | properties h => exact h

end Keyword

/-! ### Documents -/

namespace Document

variable {defs : Dictionary Document} {v : Tree}

/-- A document that is a reference. What else is said beside the reference would not count. -/
theorem holds_singleton_ref_iff {name : String} {d : Document}
    (h : Dictionary.find? name defs = some d) : Holds defs [.ref name] v ↔ Holds defs d v := by
  have happlied : applied [.ref name] = [.ref name] := rfl
  rw [Holds, happlied]
  simp only [List.mem_singleton, forall_eq]
  exact Keyword.holds_ref_iff h

/-- A document without a reference. -/
theorem holds_iff_forall {d : Document} (h : d.find? Keyword.isRef = none) :
    Holds defs d v ↔ ∀ k ∈ d, Keyword.Holds defs k v := by
  rw [Holds, applied, h]

end Document

end FacetQuery.Json
