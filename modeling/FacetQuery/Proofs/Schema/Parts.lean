import FacetQuery.Proofs.Json.Reader.Kept
import FacetQuery.Proofs.Schema.Described

/-!
# Schema — What the reader takes from a value

Of a value that is as described, the reader takes the parts that a schema is made of, and passes
over the rest. Two things are not said by the description: that a count has 64 bits, and that what
is kept can be kept.

* `Schema.Part`: the values that the reader takes from a value, each with its kind.
* `Schema.Kind.Keeps`: what must hold of a part, apart from what is described.
* `Schema.exists_valueOf_iff`: a value as described is read if that holds of all its parts.
-/

namespace FacetQuery.Schema

open Json

/-- `Part k v l w`: where the reader takes `v` for a value of the kind `k`, it takes `w` for one of
the kind `l`. It takes a value itself, and what it takes from the members of objects under the names
of their fields and from the elements of the default sort. -/
inductive Part : Kind → Tree → Kind → Tree → Prop where
  | self (k : Kind) (v : Tree) : Part k v k v
  | member {s : Struct} {f : Field Kind.Value s.Parts} {ms : List (Option String × Tree)}
      {v w : Tree} {l : Kind} : f ∈ s.record.fields → (some f.name, v) ∈ ms → Part f.kind v l w →
      Part (.struct s) (.object ms) l w
  | element {vs : List Tree} {v w : Tree} {l : Kind} : v ∈ vs → Part (.struct .sortField) v l w →
      Part .sortFields (.array vs) l w

/-- `k.Keeps v`: what is kept of a part `v` of the kind `k` can be kept. The keys of an object are
strings, those of unknown members too, and so are the names of fields; and of the default filter all
strings and numbers are kept. -/
def Kind.Keeps : Kind → Tree → Prop
  | .struct _, .object ms              => ∀ m ∈ ms, m.1 ≠ none
  | .name, v | .fields, v | .map, v    => v.Decodes
  | _, _                               => True

/-- `IsWhole v`: a number is written without point and exponent, and is not above `2^64 - 1`. -/
def IsWhole (v : Tree) : Prop :=
  ∀ p, v = .number p → p.fraction = none ∧ p.exponent = none ∧ p.toRat ≤ 2 ^ 64 - 1

/-! ### The parts of a value -/

section

variable {P : Kind → Tree → Prop} {s : Struct} {v : Tree}

/-- What holds of all parts of an object holds of the object, and of all parts of its members. -/
theorem forall_part_struct_iff {ms : List (Option String × Tree)} :
    (∀ l w, Part (.struct s) (.object ms) l w → P l w) ↔ P (.struct s) (.object ms) ∧
      ∀ f ∈ s.record.fields, ∀ v, (some f.name, v) ∈ ms → ∀ l w, Part f.kind v l w → P l w := by
  constructor
  · intro h
    exact ⟨h _ _ (.self _ _), fun f hf v hv l w hw => h l w (.member hf hv hw)⟩
  · rintro ⟨hself, hmembers⟩ l w hw
    cases hw with
    | self => exact hself
    | member hf hv hw => exact hmembers _ hf _ hv l w hw

theorem forall_part_sortFields_iff {vs : List Tree} :
    (∀ l w, Part .sortFields (.array vs) l w → P l w) ↔ P .sortFields (.array vs) ∧
      ∀ v ∈ vs, ∀ l w, Part (.struct .sortField) v l w → P l w := by
  constructor
  · intro h
    exact ⟨h _ _ (.self _ _), fun v hv l w hw => h l w (.element hv hw)⟩
  · rintro ⟨hself, helements⟩ l w hw
    cases hw with
    | self => exact hself
    | element hv hw => exact helements _ hv l w hw

/-- A value of any other kind has no parts but itself. -/
theorem forall_part_iff {k : Kind} (hstruct : ∀ s, k ≠ .struct s) (hlist : k ≠ .sortFields) :
    (∀ l w, Part k v l w → P l w) ↔ P k v := by
  constructor
  · intro h
    exact h _ _ (.self _ _)
  · rintro hself l w hw
    cases hw with
    | self => exact hself
    | member => exact absurd rfl (hstruct _)
    | element => exact absurd rfl hlist

end

/-! ### Values of one kind -/

/-- A count that is written as a whole number is read. Without sign, point and exponent, it is the
number of its digits, and they fit. -/
theorem exists_asPositive? {p : NumberParts} (hone : 1 ≤ p.toRat) (hwhole : IsWhole (.number p)) :
    ∃ n, (Tree.number p).asPositive? = some n := by
  obtain ⟨hfraction, hexponent, hmax⟩ := hwhole p rfl
  have hvalue := NumberParts.toRat_of_whole hfraction hexponent
  -- With a minus sign it would be zero or less.
  have hnegative : p.negative = false := by
    cases hsign : p.negative with
    | false => rfl
    | true =>
        rw [hvalue, hsign, if_pos rfl] at hone
        have : (0 : ℚ) ≤ digitsValue p.whole := Nat.cast_nonneg _
        linarith
  rw [hnegative, if_neg Bool.false_ne_true, one_mul] at hvalue
  rw [hvalue] at hone hmax
  have hpos : 1 ≤ digitsValue p.whole := by exact_mod_cast hone
  -- It fits 64 bits without a sign, which is more than `omega` sees in the rationals.
  have hlt : digitsValue p.whole < 2 ^ 64 := by
    have : (digitsValue p.whole : ℚ) < 2 ^ 64 := by linarith
    exact_mod_cast this
  have hinteger : p.integer? = Integer.ofInt? (digitsValue p.whole) := by
    simp [NumberParts.integer?, NumberParts.isWhole, hfraction, hexponent, hnegative]
  have hofInt : Integer.ofInt? (digitsValue p.whole) =
      some ⟨digitsValue p.whole, by omega, by omega⟩ :=
    dif_pos ⟨by omega, by omega⟩
  refine ⟨UInt64.ofNat (digitsValue p.whole), ?_⟩
  have hne : UInt64.ofNat (digitsValue p.whole) ≠ 0 := by
    intro h
    have := congrArg UInt64.toNat h
    rw [UInt64.toNat_ofNat_of_lt' (by rw [UInt64.size]; omega)] at this
    simp at this
    omega
  simp [Tree.asPositive?, Tree.asCount?, NumberParts.number?, hinteger, hofInt, Number.toUInt64?,
    Integer.toUInt64?, hne]

/-- A restriction is read if all its names are strings. -/
theorem exists_fieldsOf_iff {levels : Nat} {names : List (Option String)} :
    (∃ a, fieldsOf (levels + 1) (.array (names.map .string)) = some a) ↔
      (Tree.array (names.map .string)).Decodes := by
  have hname (o : Option String) :
      (∃ s, (Tree.string o).asString? = some s) ↔ (Tree.string o).Decodes := by
    rw [Tree.decodes_string_iff]
    rfl
  have hnames : (∃ a, (names.map Tree.string).mapM Tree.asString? = some a) ↔
      (Tree.array (names.map .string)).Decodes := by
    rw [exists_mapM_iff, Tree.decodes_array_iff, List.forall_mem_map, List.forall_mem_map,
      forall₂_congr fun o _ => hname o]
  rw [← hnames]
  simp [fieldsOf, Tree.asList?]

/-- An object is complete if it has all the members that it must have, and the others are filled in
with their defaults. -/
theorem exists_finish (s : Struct) (x : s.Parts)
    (h : ∀ f ∈ s.record.fields, f.default? = none → (f.get x).isSome = true) :
    ∃ a, s.record.finish x = some a := by
  cases s with
  | sortField =>
      -- The only object with fields that have no default.
      obtain ⟨hfield, horder⟩ : x.field.isSome = true ∧ x.order.isSome = true := by
        simpa [Struct.record, sortFieldRecord] using h
      obtain ⟨field, hfield⟩ := Option.isSome_iff_exists.mp hfield
      obtain ⟨order, horder⟩ := Option.isSome_iff_exists.mp horder
      exact ⟨⟨field, order⟩, by simp [Struct.record, sortFieldRecord, hfield, horder]⟩
  | schema => exact ⟨x.complete, rfl⟩
  | filter => exact ⟨x.complete, rfl⟩
  | sort => exact ⟨x.complete, rfl⟩
  | page => exact ⟨x.complete, rfl⟩

/-- **A value as described** is read if all that is kept of it can be kept. Induction on the levels,
with a case for each kind of value. -/
theorem exists_valueOf_iff {k : Kind} {v : Tree} (h : Described k v) {levels : Nat}
    (hdistinct : v.Distinct) (hfits : v.Fits levels)
    (hwhole : ∀ l w, Part k v l w → l = .count → IsWhole w) :
    (∃ a, valueOf levels k v = some a) ↔ ∀ l w, Part k v l w → l.Keeps w := by
  induction h generalizing levels with
  | switch b =>
      -- A value that has no parts but itself: what its own kind asks for is all.
      rw [forall_part_iff (by simp) (by simp), valueOf]
      simp [Kind.Keeps, Tree.asBool?]
  | count _ hone =>
      rw [forall_part_iff (by simp) (by simp), valueOf]
      simpa only [Kind.Keeps, iff_true] using exists_asPositive? hone (hwhole _ _ (.self _ _) rfl)
  | name s =>
      rw [forall_part_iff (by simp) (by simp), valueOf, Kind.Keeps, Tree.decodes_string_iff]
      exact Iff.rfl
  | direction d =>
      rw [forall_part_iff (by simp) (by simp), valueOf]
      simp [Kind.Keeps, Tree.asChoice?, Direction.ofName?_name]
  | unrestricted =>
      rw [forall_part_iff (by simp) (by simp), valueOf]
      simp [Kind.Keeps, fieldsOf, Tree.Decodes.null]
  | restricted _ =>
      cases hfits with
      | array =>
          rw [forall_part_iff (by simp) (by simp), valueOf, Kind.Keeps]
          exact exists_fieldsOf_iff
  | map ms =>
      rw [forall_part_iff (by simp) (by simp), valueOf, Kind.Keeps]
      exact Tree.exists_asMap?_iff hfits
  | @sortFields vs _ ih =>
      cases hfits with
      | @array inner _ hfits =>
          cases hdistinct with
          | array hdistinct =>
              -- The items have one level less, and whole counts are asked of their parts as well.
              have helements := (forall_part_sortFields_iff.mp hwhole).2
              have hself : Kind.sortFields.Keeps (.array vs) := trivial
              rw [forall_part_sortFields_iff, and_iff_right hself, valueOf, exists_mapM_iff]
              exact forall₂_congr fun v hv =>
                ih v hv (hdistinct v hv) (hfits v hv) (helements v hv)
  | @struct s ms hrequired _ ih =>
      cases hfits with
      | @object inner _ hfits =>
          cases hdistinct with
          | object hkeys hdistinct =>
              have hmembers := (forall_part_struct_iff.mp hwhole).2
              rw [forall_part_struct_iff, valueOf, Kind.Keeps,
                Record.exists_read_iff hkeys hrequired (exists_finish s)]
              -- A record is read member by member, and each member is the value of its field.
              refine and_congr_right' (forall₂_congr fun f hf => forall₂_congr fun v hv => ?_)
              exact ih f hf v hv (hdistinct _ hv) (hfits _ hv) (hmembers f hf v hv)

end FacetQuery.Schema
