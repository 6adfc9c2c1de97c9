import FacetQuery.Proofs.Json.Reread
import FacetQuery.Proofs.Schema.Accepted
import FacetQuery.Proofs.Schema.Structs
import FacetQuery.Schema.Writer

/-!
# Schema — A written schema is read back

Writing a schema and reading the file always gives a schema, with the same flags, fields, sort and
page, and the same default filter but for its numbers: each has become what its own text is read as.

* `Schema.writes_write`: the text of a schema is JSON, and of the JSON form of this schema.
* `Schema.valueOf_toTree`: this form is good for a schema, the one that was written with its numbers
  read again.
* `Schema.ofContent_write`: the schema that is read back, and just when it is the one written.
-/

namespace FacetQuery.Schema

open Json Json.Reader

/-- `reread s` is `s` with the numbers of its default filter read again. -/
def reread (s : Schema) : Schema :=
  { s with filter := { s.filter with
      default := s.filter.default.map fun m => (m.1, m.2.mapNumbers Number.reread) } }

/-! ### The JSON form of a schema is read as this schema -/

section

variable {f : Number → NumberParts} {n : Nat}

/-- **The text that is written** for a schema is one of its JSON form, with blanks for its lines and
levels, and a line break at its end. -/
theorem writes_write (hf : Number.Spelling f) (s : Schema) :
    Writes s.write (s.toValue.toTree f) := by
  have hblank : Blank "\n".toList := by simp [Blank, Cursor.isBlank]
  exact Value.writes_write Spacing.isBlank_indented hf s.toValue hblank

theorem valueOf_bool (b : Bool) : valueOf n .switch (.bool b) = some b := by
  rw [valueOf, Tree.asBool?]

/-- A count is at least one. -/
theorem valueOf_ofUInt64 (hf : Number.Spelling f) {k : UInt64} (hk : 1 ≤ k) :
    valueOf n .count (Value.toTree f (.ofUInt64 k)) = some k := by
  have hne : k ≠ 0 := by
    rintro rfl
    exact absurd hk (by decide)
  rw [Value.ofUInt64, Value.toTree_number, Number.ofUInt64, hf.whole, valueOf, Tree.asPositive?,
    Tree.asCount?, number?_wholeParts, Option.bind_some, Number.toUInt64?,
    Integer.toUInt64?_ofUInt64, Option.filter_some]
  simp [hne]

/-- The names of a restriction are listed, and `null` stands where there is none. -/
theorem valueOf_toTree_fields (fields : Fields) :
    valueOf (n + 1) .fields (fields.toValue.toTree f) = some fields := by
  obtain ⟨_ | set⟩ := fields
  · rw [Fields.toValue, Value.toTree_null, valueOf]
    rfl
  · have hnames : (set.names.map fun name => Tree.string (some name)).mapM Tree.asString? =
        some (set.names.map id) := by
      rw [List.mapM_map]
      exact mapM_eq_some_map fun _ _ => rfl
    have hlist : Value.toTree f (.array (set.names.map .string)) =
        .array (set.names.map fun name => Tree.string (some name)) := by
      simp
    rw [Fields.toValue, hlist, valueOf, fieldsOf, Tree.asList?, hnames, List.map_id]
    · simp [Fields.only, FieldSet.ofNames_names]
    · simp

/-- The objects of a schema are written with their fields in order, so that they are read one field
after another. -/
theorem valueOf_named {s : Struct} {vs : List Tree} (hvs : vs.length ≤ s.record.fields.length) :
    valueOf (n + 1) (.struct s) (.object (s.record.named vs)) =
      (setItems (valueOf n) s.record.fields vs s.record.empty).bind s.record.finish := by
  rw [valueOf]
  exact Record.read_named hvs

/-- Only the default filter holds numbers that are no whole ones, so only what is in it depends on
how numbers are read again. -/
theorem valueOf_toTree_filter (hf : Number.Spelling f) {s : FilterSchema}
    (hfits : (Value.object s.default).Fits (n + 1)) (h : (Value.object s.default).WellFormed) :
    valueOf (n + 2) (.struct .filter) (s.toValue.toTree f) =
      some { s with default := s.default.map fun m => (m.1, m.2.mapNumbers Number.reread) } := by
  have hfields := valueOf_toTree_fields (f := f) (n := n) s.fields
  have hdefault : valueOf (n + 1) .map (Value.toTree f (.object s.default)) =
      some (s.default.map fun m => (m.1, m.2.mapNumbers Number.reread)) := by
    rw [valueOf]
    exact Value.asMap?_toTree hf hfits h
  rw [FilterSchema.toValue, Value.toTree_object]
  refine (@valueOf_named _ .filter [_, _, _] (Nat.le_refl _)).trans ?_
  simp only [Struct.record, filterRecord, setItems, Value.toTree_bool, valueOf_bool, hfields,
    hdefault, Option.bind_some]
  rfl

theorem valueOf_toTree_sortField (t : SortField) :
    valueOf (n + 1) (.struct .sortField) (t.toValue.toTree f) = some t := by
  have hfield : valueOf n .name (.string (some t.field)) = some t.field := by
    rw [valueOf, Tree.asString?]
  have horder : valueOf n .direction (.string (some t.order.name)) = some t.order := by
    rw [valueOf, Tree.asChoice?, Option.bind_some, Direction.ofName?_name]
  rw [SortField.toValue, Value.toTree_object]
  refine (@valueOf_named _ .sortField [_, _] (Nat.le_refl _)).trans ?_
  simp only [Struct.record, sortFieldRecord, setItems, Value.toTree_string, hfield, horder,
    Option.bind_some]
  rfl

theorem valueOf_toTree_sort (s : SortSchema) :
    valueOf (n + 3) (.struct .sort) (s.toValue.toTree f) = some s := by
  have hfields := valueOf_toTree_fields (f := f) (n := n + 1) s.fields
  have hitems : (s.default.map fun t => t.toValue.toTree f).mapM
      (valueOf (n + 1) (.struct .sortField)) = some (s.default.map id) := by
    rw [List.mapM_map]
    exact mapM_eq_some_map fun t _ => valueOf_toTree_sortField t
  have hdefault : valueOf (n + 2) .sortFields
      (Value.toTree f (.array (s.default.map SortField.toValue))) = some s.default := by
    rw [Value.toTree_array, List.map_map, valueOf]
    rwa [List.map_id] at hitems
  rw [SortSchema.toValue, Value.toTree_object]
  refine (@valueOf_named _ .sort [_, _, _] (Nat.le_refl _)).trans ?_
  simp only [Struct.record, sortRecord, setItems, Value.toTree_bool, valueOf_bool, hfields,
    hdefault, Option.bind_some]
  rfl

theorem valueOf_toTree_page (hf : Number.Spelling f) {s : PageSchema} (hsize : 1 ≤ s.defaultSize)
    (hnumber : 1 ≤ s.defaultNumber) :
    valueOf (n + 1) (.struct .page) (s.toValue.toTree f) = some s := by
  rw [PageSchema.toValue, Value.toTree_object]
  refine (@valueOf_named _ .page [_, _, _] (Nat.le_refl _)).trans ?_
  simp only [Struct.record, pageRecord, setItems, Value.toTree_bool, valueOf_bool,
    valueOf_ofUInt64 hf hsize, valueOf_ofUInt64 hf hnumber, Option.bind_some]
  rfl

/-- **The JSON form of a schema** is read as this schema with its numbers read again, if its page
size and number are at least one, and its default filter repeats no key and is not nested too deep:
it stands inside two other objects. -/
theorem valueOf_toTree (hf : Number.Spelling f) {s : Schema}
    (hfits : (Value.object s.filter.default).Fits (n + 2))
    (h : (Value.object s.filter.default).WellFormed) (hsize : 1 ≤ s.page.defaultSize)
    (hnumber : 1 ≤ s.page.defaultNumber) :
    valueOf (n + 4) (.struct .schema) (s.toValue.toTree f) = some s.reread := by
  have hfilter := valueOf_toTree_filter hf hfits h
  have hsort := valueOf_toTree_sort (f := f) (n := n) s.sort
  have hpage := valueOf_toTree_page (n := n + 2) hf hsize hnumber
  rw [toValue, Value.toTree_object]
  refine (@valueOf_named _ .schema [_, _, _] (Nat.le_refl _)).trans ?_
  simp only [Struct.record, schemaRecord, setItems, hfilter, hsort, hpage, Option.bind_some]
  rfl

end

/-! ### Files -/

theorem ofContent_toUTF8 (path text : String) :
    ofContent path (.bytes text.toUTF8) = (read text).mapError (.parse path) := by
  have hvalid : String.fromUTF8? text.toUTF8 = some text := by
    have hutf8 : text.toUTF8.IsValidUTF8 := text.isValidUTF8
    rw [String.fromUTF8?, dif_pos hutf8]
    rfl
  rw [ofContent, hvalid]

theorem reread_eq_self_iff (s : Schema) :
    s.reread = s ↔ ∀ n ∈ (Value.object s.filter.default).numbers, n.reread = n := by
  rw [← Value.mapNumbers_eq_self_iff, Value.mapNumbers_object, Value.object.injEq]
  constructor
  · exact fun h => congrArg (·.filter.default) h
  · intro h
    rw [reread, h]

/-- The text of a schema is read as this schema, with its numbers read again. -/
theorem read_written {s : Schema} (h : s.Accepted) : read s.write = .ok s.reread := by
  obtain ⟨f, hf⟩ := Number.exists_spelling
  exact (read_eq_ok_iff (writes_write hf s)).mpr
    (valueOf_toTree hf h.filter.fits h.filter.wellFormed h.size h.number)

/-- **A written schema is read back.** The file that is written for a schema that was read holds a
schema again: the same one just in case every number of its default filter is what its own text is
read as, and else the one with these numbers. -/
theorem ofContent_write {path : String} {content : FileContent} {s : Schema}
    (h : ofContent path content = .ok s) :
    (∀ path', ofContent path' (.bytes s.write.toUTF8) = .ok s.reread) ∧
      (s.reread = s ↔ ∀ n ∈ (Value.object s.filter.default).numbers, n.reread = n) := by
  refine ⟨fun path' => ?_, reread_eq_self_iff s⟩
  rw [ofContent_toUTF8, read_written (accepted_of_ofContent h)]
  rfl

/-- `comparing v` is the text of a schema whose default filter compares with `v`. -/
def comparing (v : String) : String :=
  "\x7b\"filter\": \x7b\"default\": \x7b\"a\": \x7b\">\": " ++ v ++ "\x7d\x7d\x7d\x7d"

/-- `comparison v` is a schema whose default filter compares with `v`. -/
def comparison (v : Value) : Schema :=
  { standard with filter := { FilterSchema.standard with default := [("a", .object [(">", v)])] } }

theorem ofContent_comparing {path text : String} {v : Value}
    (h : read (comparing text) = .ok (comparison v)) :
    ofContent path (.bytes (comparing text).toUTF8) = .ok (comparison v) := by
  rw [ofContent_toUTF8, h]
  rfl

/-- One and a half are read back. -/
theorem ofContent_write_half :
    ofContent "schema.json" (.bytes (comparison
        (.array [.ofUInt64 1, .number (.real ⟨0x3FE0000000000000⟩ rfl)])).write.toUTF8) =
      .ok (comparison (.array [.ofUInt64 1, .number (.real ⟨0x3FE0000000000000⟩ rfl)])) := by
  have h : ofContent "schema.json" (.bytes (comparing "[1, 0.5]").toUTF8) =
      .ok (comparison (.array [.ofUInt64 1, .number (.real ⟨0x3FE0000000000000⟩ rfl)])) :=
    ofContent_comparing (by decide +kernel)
  obtain ⟨hread, hself⟩ := ofContent_write h
  rw [hread, hself.mpr (by decide +kernel)]

/-- The double that `5.5450e296` is read as is written as `5.545e+296`, which is read as its
neighbour. -/
theorem exists_ofContent_write_ne :
    ∃ content s, ofContent "schema.json" content = .ok s ∧
      ofContent "schema.json" (.bytes s.write.toUTF8) ≠ .ok s := by
  obtain ⟨n, hn⟩ : ∃ n, n = Number.real ⟨0x7D8B21B22B4394D8⟩ rfl := ⟨_, rfl⟩
  have hcontent : ofContent "schema.json" (.bytes (comparing "5.5450e296").toUTF8) =
      .ok (comparison (.number n)) :=
    ofContent_comparing (by rw [hn]; decide +kernel)
  refine ⟨_, _, hcontent, fun hback => ?_⟩
  rw [ofContent_toUTF8, read_written (accepted_of_ofContent hcontent)] at hback
  have hself : n.reread = n :=
    (reread_eq_self_iff _).mp (Except.ok.inj hback) n (by simp [comparison, Value.numbers,
      Value.numbersUnder])
  have htext : n.text = "5.545e+296" := by
    have hchars : Layout.json.chars ⟨0x7D8B21B22B4394D8⟩ = "5.545e+296".toList := by decide +kernel
    subst hn
    exact (congrArg String.ofList hchars).trans String.ofList_toList
  have hrun : Reader.number.run "5.545e+296" = .ok (.real ⟨0x7D8B21B22B4394D7⟩ rfl) := by
    decide +kernel
  rw [Number.reread, htext, hrun, hn] at hself
  exact absurd hself (by decide)

end FacetQuery.Schema
