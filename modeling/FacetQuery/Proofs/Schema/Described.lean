import FacetQuery.Proofs.Json.Describes
import FacetQuery.Proofs.Schema.Structs
import FacetQuery.Schema.Description
import Mathlib.Data.Set.List

/-!
# Schema — What the description says

The description of schemas, read keyword by keyword. It says the same of each kind of value wherever
the kind occurs, and of an object it says which members must be there and of which kinds they are:
just what the record of its fields says.

* `Schema.Described`: what the description says of a value of each kind.
* `Schema.holds_fields_iff`, `Schema.holds_count_iff`, `Schema.holds_direction_iff`: the values that
  occur in several places.
* `Schema.holds_filter_iff`, `Schema.holds_sort_iff`, `Schema.holds_page_iff`: the three parts.
* `Schema.describes_iff`: a whole schema.
-/

namespace FacetQuery.Schema

open Json

/-- `Described k v`: the value is as described for the kind `k`. Members of unknown names may be
there, a member with a default need not be, and in the default filter anything goes. -/
inductive Described : Kind → Tree → Prop where
  | switch (b : Bool) : Described .switch (.bool b)
  | count {p : NumberParts} :
      (∃ i : ℤ, p.toRat = i) → 1 ≤ p.toRat → Described .count (.number p)
  | name (s : Option String) : Described .name (.string s)
  | direction (d : Direction) : Described .direction (.string (some d.name))
  | unrestricted : Described .fields .null
  | restricted {names : List (Option String)} :
      (names.map Tree.string).Pairwise (fun x y => ¬ x.Same y) →
      Described .fields (.array (names.map .string))
  | map (ms : List (Option String × Tree)) : Described .map (.object ms)
  | sortFields {vs : List Tree} :
      (∀ v ∈ vs, Described (.struct .sortField) v) → Described .sortFields (.array vs)
  | struct {s : Struct} {ms : List (Option String × Tree)} :
      (∀ f ∈ s.record.fields, f.default? = none → some f.name ∈ ms.map Prod.fst) →
      (∀ f ∈ s.record.fields, ∀ v, (some f.name, v) ∈ ms → Described f.kind v) →
      Described (.struct s) (.object ms)

variable {v : Tree}

/-! ### One kind of value -/

/-- What is said of a value of one kind, together with its kind. -/
theorem kind_and_forall_iff {α : Type} {kind : α → Tree} (hkind : Function.Injective kind)
    {P : α → Prop} :
    ((∃ a, v = kind a) ∧ ∀ a, v = kind a → P a) ↔ ∃ a, v = kind a ∧ P a := by
  constructor
  · rintro ⟨⟨a, rfl⟩, h⟩
    exact ⟨a, rfl, h a rfl⟩
  · rintro ⟨a, rfl, h⟩
    exact ⟨⟨a, rfl⟩, fun b hb => hkind hb ▸ h⟩

theorem object_and_forall_iff {P : List (Option String × Tree) → Prop} :
    ((∃ ms, v = .object ms) ∧ ∀ ms, v = .object ms → P ms) ↔ ∃ ms, v = .object ms ∧ P ms :=
  kind_and_forall_iff fun _ _ => Tree.object.inj

theorem array_and_forall_iff {P : List Tree → Prop} :
    ((∃ vs, v = .array vs) ∧ ∀ vs, v = .array vs → P vs) ↔ ∃ vs, v = .array vs ∧ P vs :=
  kind_and_forall_iff fun _ _ => Tree.array.inj

theorem described_switch_iff : Described .switch v ↔ ∃ b, v = .bool b := by
  constructor
  · intro h
    cases h with
    | switch b => exact ⟨b, rfl⟩
  · rintro ⟨b, rfl⟩
    exact .switch b

/-- A count is a whole number from one on, however it is written: `1.0` and `1e0` are counts here.
-/
theorem described_count_iff :
    Described .count v ↔ ∃ p, v = .number p ∧ (∃ i : ℤ, p.toRat = i) ∧ 1 ≤ p.toRat := by
  constructor
  · intro h
    cases h with
    | count hi hp => exact ⟨_, rfl, hi, hp⟩
  · rintro ⟨p, rfl, hi, hp⟩
    exact .count hi hp

theorem described_name_iff : Described .name v ↔ ∃ s, v = .string s := by
  constructor
  · intro h
    cases h with
    | name s => exact ⟨s, rfl⟩
  · rintro ⟨s, rfl⟩
    exact .name s

theorem described_direction_iff :
    Described .direction v ↔ ∃ d : Direction, v = .string (some d.name) := by
  constructor
  · intro h
    cases h with
    | direction d => exact ⟨d, rfl⟩
  · rintro ⟨d, rfl⟩
    exact .direction d

/-- A restriction is a list of strings that are all different, or `null`. -/
theorem described_fields_iff :
    Described .fields v ↔ v = .null ∨ ∃ names : List (Option String),
      v = .array (names.map .string) ∧
        (names.map Tree.string).Pairwise fun x y => ¬ x.Same y := by
  constructor
  · intro h
    cases h with
    | unrestricted => exact .inl rfl
    | restricted hnames => exact .inr ⟨_, rfl, hnames⟩
  · rintro (rfl | ⟨names, rfl, hnames⟩)
    · exact .unrestricted
    · exact .restricted hnames

theorem described_map_iff : Described .map v ↔ ∃ ms, v = .object ms := by
  constructor
  · intro h
    cases h with
    | map ms => exact ⟨ms, rfl⟩
  · rintro ⟨ms, rfl⟩
    exact .map ms

theorem described_sortFields_iff :
    Described .sortFields v ↔ ∃ vs, v = .array vs ∧ ∀ w ∈ vs, Described (.struct .sortField) w := by
  constructor
  · intro h
    cases h with
    | sortFields h => exact ⟨_, rfl, h⟩
  · rintro ⟨vs, rfl, h⟩
    exact .sortFields h

/-- An object has all members without a default, and every member of a known name is as described
for its field. -/
theorem described_struct_iff {s : Struct} :
    Described (.struct s) v ↔ ∃ ms, v = .object ms ∧
      (∀ f ∈ s.record.fields, f.default? = none → some f.name ∈ ms.map Prod.fst) ∧
      ∀ f ∈ s.record.fields, ∀ w, (some f.name, w) ∈ ms → Described f.kind w := by
  constructor
  · intro h
    cases h with
    | struct hrequired hmembers => exact ⟨_, rfl, hrequired, hmembers⟩
  · rintro ⟨ms, rfl, hrequired, hmembers⟩
    exact .struct hrequired hmembers

/-! ### The values that occur in several places -/

/-- The definitions that the description of schemas refers to. -/
def definitions : Dictionary Document :=
  document.defined

theorem holds_switch_iff :
    Document.Holds definitions switchDocument v ↔ Described .switch v := by
  rw [Document.holds_iff_forall rfl, described_switch_iff]
  simp [switchDocument]

theorem toRat_one : one.toRat = 1 := by
  have hunits : (⟨0x3FF0000000000000⟩ : Binary64).units = 2 ^ 1074 := by decide +kernel
  have hpositive : (⟨0x3FF0000000000000⟩ : Binary64).isNegative = false := by decide
  have hone : ((2 ^ 1074 : ℕ) : ℚ) / 2 ^ 1074 = 1 := by
    rw [Nat.cast_pow, Nat.cast_ofNat]
    exact div_self (pow_ne_zero _ two_ne_zero)
  rw [one, Number.toRat, hunits, hpositive, hone, if_neg Bool.false_ne_true, one_mul]

/-- Those of a count say that it is whole and at least one. Neither its description nor its default
restricts it. -/
theorem holds_count_iff {text : String} {n : UInt64} :
    Document.Holds definitions (countDocument text n) v ↔ Described .count v := by
  rw [Document.holds_iff_forall rfl, described_count_iff]
  simp only [countDocument, List.forall_mem_cons, forall_eq, true_and,
    Keyword.holds_description, Keyword.holds_default, Keyword.holds_format,
    Keyword.holds_type_iff, Keyword.holds_minimum_iff, toRat_one, List.mem_singleton,
    exists_eq_left, Tree.hasType_integer_iff]
  constructor
  · rintro ⟨⟨p, rfl, hi⟩, hmin⟩
    exact ⟨p, rfl, hi, hmin p rfl⟩
  · rintro ⟨p, rfl, hi, hmin⟩
    refine ⟨⟨p, rfl, hi⟩, fun q hq => ?_⟩
    cases hq
    exact hmin

theorem holds_name_iff :
    Document.Holds definitions [.type ["string"]] v ↔ Described .name v := by
  rw [Document.holds_iff_forall rfl, described_name_iff]
  simp

/-- The names of a restriction, or none at all: strings, no two of which say the same. -/
theorem holds_restriction_iff :
    Document.Holds definitions restrictionDocument v ↔ Described .fields v := by
  have hkeywords : (∀ k ∈ restrictionDocument, Keyword.Holds definitions k v) ↔
      ((∃ vs, v = .array vs) ∨ v = .null) ∧
        (∀ vs, v = .array vs → ∀ x ∈ vs, ∃ s, Tree.string s = x) ∧
        ∀ vs, v = .array vs → vs.Pairwise fun x y => ¬ x.Same y := by
    simp [restrictionDocument, holds_name_iff, described_name_iff, eq_comm]
  rw [Document.holds_iff_forall rfl, described_fields_iff, hkeywords]
  constructor
  · rintro ⟨⟨vs, rfl⟩ | rfl, hnames, hpairwise⟩
    · -- Items that are strings, each of them, are a list of strings.
      obtain ⟨names, rfl⟩ : vs ∈ Set.range (List.map Tree.string) := by
        rw [Set.range_list_map]
        exact hnames vs rfl
      exact .inr ⟨names, rfl, hpairwise _ rfl⟩
    · exact .inl rfl
  · rintro (rfl | ⟨names, rfl, hpairwise⟩)
    · simp
    · refine ⟨.inl ⟨_, rfl⟩, ?_, ?_⟩
      · rintro _ ⟨⟩ x hx
        obtain ⟨s, -, rfl⟩ := List.mem_map.mp hx
        exact ⟨s, rfl⟩
      · rintro _ ⟨⟩
        exact hpairwise

/-- The keywords of a restriction: strings that are all different, or `null`. -/
theorem holds_fields_iff :
    Document.Holds definitions fieldsDocument v ↔ Described .fields v := by
  have href : Document.Holds definitions [.ref "Fields"] v ↔
      Document.Holds definitions restrictionDocument v :=
    Document.holds_singleton_ref_iff rfl
  rw [Document.holds_iff_forall rfl, ← holds_restriction_iff, ← href]
  simp [fieldsDocument]

/-- A direction is one of the two names in the definition that is referred to. -/
theorem holds_direction_iff :
    Document.Holds definitions [.ref "OrderDirection"] v ↔ Described .direction v := by
  rw [Document.holds_singleton_ref_iff (d := directionDocument) rfl,
    Document.holds_iff_forall rfl, described_direction_iff]
  have hkeywords : (∀ k ∈ directionDocument, Keyword.Holds definitions k v) ↔
      (∃ s, v = .string s) ∧ ∃ d ∈ Direction.all, v = .string (some d.name) := by
    simp [directionDocument]
  rw [hkeywords]
  constructor
  · rintro ⟨-, d, -, rfl⟩
    exact ⟨d, rfl⟩
  · rintro ⟨d, rfl⟩
    exact ⟨⟨_, rfl⟩, d, by cases d <;> simp [Direction.all], rfl⟩

/-! ### The parts of a schema -/

theorem holds_defaultFilter_iff {text : String} :
    Document.Holds definitions
      [.description text, .default (.object []), .type ["object"], .openMembers] v ↔
      Described .map v := by
  rw [Document.holds_iff_forall rfl, described_map_iff]
  simp

/-- **A filter schema** is as its keywords say exactly if it is as its record says. -/
theorem holds_filter_iff :
    Document.Holds definitions filterDocument v ↔ Described (.struct .filter) v := by
  rw [Document.holds_iff_forall rfl, described_struct_iff, ← object_and_forall_iff]
  simp [filterDocument, holds_switch_iff, holds_fields_iff, holds_defaultFilter_iff, Struct.record,
    filterRecord]

/-- A sort field must have both of its members; the definition lists them as required. -/
theorem holds_sortField_iff :
    Document.Holds definitions [.ref "SortField"] v ↔ Described (.struct .sortField) v := by
  rw [Document.holds_singleton_ref_iff (d := sortFieldDocument) rfl, Document.holds_iff_forall rfl,
    described_struct_iff, ← object_and_forall_iff]
  simp [sortFieldDocument, holds_name_iff, holds_direction_iff, Struct.record, sortFieldRecord,
    forall_and]

theorem holds_sortFields_iff {text : String} :
    Document.Holds definitions
      [.description text, .default (.array []), .type ["array"], .items [.ref "SortField"]] v ↔
      Described .sortFields v := by
  rw [Document.holds_iff_forall rfl, described_sortFields_iff, ← array_and_forall_iff]
  simp [holds_sortField_iff]

/-- A sort schema is as its keywords say exactly if it is as its record says. -/
theorem holds_sort_iff :
    Document.Holds definitions sortDocument v ↔ Described (.struct .sort) v := by
  rw [Document.holds_iff_forall rfl, described_struct_iff, ← object_and_forall_iff]
  simp [sortDocument, holds_switch_iff, holds_fields_iff, holds_sortFields_iff, Struct.record,
    sortRecord]

theorem holds_page_iff :
    Document.Holds definitions pageDocument v ↔ Described (.struct .page) v := by
  rw [Document.holds_iff_forall rfl, described_struct_iff, ← object_and_forall_iff]
  simp [pageDocument, holds_switch_iff, holds_count_iff, Struct.record, pageRecord]

/-- A part of a schema is as the definition that it refers to. -/
theorem holds_part_iff {name : String} {w : Value} {d : Document}
    (hd : Dictionary.find? name definitions = some d) :
    Document.Holds definitions (partDocument name w) v ↔ Document.Holds definitions d v := by
  rw [Document.holds_iff_forall rfl, ← Document.holds_singleton_ref_iff hd]
  simp [partDocument]

/-- **What the description says** of a whole schema: an object of three parts, each as described.
None of them must be there. -/
theorem describes_iff : Document.Describes document v ↔ Described (.struct .schema) v := by
  have hfilter (w : Tree) := (holds_part_iff (v := w) (w := FilterSchema.standard.toValue)
    (show Dictionary.find? "FilterSchema" definitions = _ from rfl)).trans holds_filter_iff
  have hsort (w : Tree) := (holds_part_iff (v := w) (w := SortSchema.standard.toValue)
    (show Dictionary.find? "SortSchema" definitions = _ from rfl)).trans holds_sort_iff
  have hpage (w : Tree) := (holds_part_iff (v := w) (w := PageSchema.standard.toValue)
    (show Dictionary.find? "PageSchema" definitions = _ from rfl)).trans holds_page_iff
  show Document.Holds definitions document v ↔ _
  rw [Document.holds_iff_forall rfl, described_struct_iff, ← object_and_forall_iff]
  simp [document, hfilter, hsort, hpage, Struct.record, schemaRecord]

end FacetQuery.Schema
