import FacetQuery.Proofs.Json.Reader.Grammatical
import FacetQuery.Proofs.Json.Reader.Records
import FacetQuery.Schema.Reader

/-!
# Schema — The objects that a schema is made of

A schema is an object of objects. Each has its fields, most of them with a default, and each is
read by what its members say, wherever they stand.

* `Schema.Struct`, `Schema.Kind`: the objects of a schema, and what may stand under their keys.
* `Schema.Struct.record`: the fields of each object, with their kinds and defaults.
* `Schema.valueOf`: what a value of a kind is read as.
* `Schema.interprets_schemaReader`, `Schema.grammatical_schemaReader`: a schema is read as just
  that, and nothing else is.
* `Schema.read_eq_ok_iff_exists`: the texts that are accepted.
-/

namespace FacetQuery.Schema

open Json Json.Reader

/-- The objects of a schema. -/
inductive Struct where
  | schema
  | filter
  | sort
  | page
  /-- An element of the default sort. -/
  | sortField

/-- What may stand under a key. -/
inductive Kind where
  | switch
  /-- A number from one on. -/
  | count
  | name
  | direction
  /-- The fields that a facet may name. -/
  | fields
  /-- The default filter. -/
  | map
  /-- The default sort. -/
  | sortFields
  | struct (s : Struct)

/-- `s.Value` is the type of the objects `s`. -/
@[reducible] def Struct.Value : Struct → Type
  | .schema    => Schema
  | .filter    => FilterSchema
  | .sort      => SortSchema
  | .page      => PageSchema
  | .sortField => SortField

/-- `s.Parts` is the type of the objects `s` under construction. -/
@[reducible] def Struct.Parts : Struct → Type
  | .schema    => SchemaParts
  | .filter    => FilterParts
  | .sort      => SortParts
  | .page      => PageParts
  | .sortField => SortFieldParts

/-- `k.Value` is the type of what may stand under a key of the kind `k`. -/
@[reducible] def Kind.Value : Kind → Type
  | .switch     => Bool
  | .count      => UInt64
  | .name       => String
  | .direction  => Direction
  | .fields     => Fields
  | .map        => Dictionary Json.Value
  | .sortFields => List SortField
  | .struct s   => s.Value

/-! ### Fields -/

/-- The fields of a filter schema. -/
def filterRecord : Record Kind.Value FilterParts FilterSchema where
  fields :=
    [{ name := "isEnabled", kind := .switch, default? := some true
       get := (·.isEnabled), set := fun a s => { s with isEnabled := some a } },
     { name := "fields", kind := .fields, default? := some .any
       get := (·.fields), set := fun a s => { s with fields := some a } },
     { name := "default", kind := .map, default? := some []
       get := (·.default), set := fun a s => { s with default := some a } }]
  empty := {}
  finish s := some s.complete
  independent := by
    simp only [List.pairwise_cons, List.forall_mem_cons, List.not_mem_nil, List.Pairwise.nil,
      false_implies, implies_true, and_true]
    refine ⟨⟨?_, ?_⟩, ?_⟩ <;>
      exact ⟨by decide, fun _ _ => rfl, fun _ _ => rfl, fun _ _ _ => rfl⟩
  get_set := by simp
  get_empty := by simp
  finish_set := by
    simp only [List.forall_mem_cons, List.not_mem_nil, false_implies, implies_true, and_true]
    refine ⟨?_, ?_, ?_⟩ <;>
      · rintro _ ⟨⟩ s hs
        rw [FilterParts.complete, FilterParts.complete, hs]
        rfl

/-- The fields of a sort schema. -/
def sortRecord : Record Kind.Value SortParts SortSchema where
  fields :=
    [{ name := "isEnabled", kind := .switch, default? := some true
       get := (·.isEnabled), set := fun a s => { s with isEnabled := some a } },
     { name := "fields", kind := .fields, default? := some .any
       get := (·.fields), set := fun a s => { s with fields := some a } },
     { name := "default", kind := .sortFields, default? := some []
       get := (·.default), set := fun a s => { s with default := some a } }]
  empty := {}
  finish s := some s.complete
  independent := by
    simp only [List.pairwise_cons, List.forall_mem_cons, List.not_mem_nil, List.Pairwise.nil,
      false_implies, implies_true, and_true]
    refine ⟨⟨?_, ?_⟩, ?_⟩ <;>
      exact ⟨by decide, fun _ _ => rfl, fun _ _ => rfl, fun _ _ _ => rfl⟩
  get_set := by simp
  get_empty := by simp
  finish_set := by
    simp only [List.forall_mem_cons, List.not_mem_nil, false_implies, implies_true, and_true]
    refine ⟨?_, ?_, ?_⟩ <;>
      · rintro _ ⟨⟩ s hs
        rw [SortParts.complete, SortParts.complete, hs]
        rfl

/-- The fields of a page schema. -/
def pageRecord : Record Kind.Value PageParts PageSchema where
  fields :=
    [{ name := "isEnabled", kind := .switch, default? := some true
       get := (·.isEnabled), set := fun a s => { s with isEnabled := some a } },
     { name := "defaultSize", kind := .count, default? := some 20
       get := (·.defaultSize), set := fun a s => { s with defaultSize := some a } },
     { name := "defaultNumber", kind := .count, default? := some 1
       get := (·.defaultNumber), set := fun a s => { s with defaultNumber := some a } }]
  empty := {}
  finish s := some s.complete
  independent := by
    simp only [List.pairwise_cons, List.forall_mem_cons, List.not_mem_nil, List.Pairwise.nil,
      false_implies, implies_true, and_true]
    refine ⟨⟨?_, ?_⟩, ?_⟩ <;>
      exact ⟨by decide, fun _ _ => rfl, fun _ _ => rfl, fun _ _ _ => rfl⟩
  get_set := by simp
  get_empty := by simp
  finish_set := by
    simp only [List.forall_mem_cons, List.not_mem_nil, false_implies, implies_true, and_true]
    refine ⟨?_, ?_, ?_⟩ <;>
      · rintro _ ⟨⟩ s hs
        rw [PageParts.complete, PageParts.complete, hs]
        rfl

/-- The parts of a schema. -/
def schemaRecord : Record Kind.Value SchemaParts Schema where
  fields :=
    [{ name := "filter", kind := .struct .filter, default? := some .standard
       get := (·.filter), set := fun a s => { s with filter := some a } },
     { name := "sort", kind := .struct .sort, default? := some .standard
       get := (·.sort), set := fun a s => { s with sort := some a } },
     { name := "page", kind := .struct .page, default? := some .standard
       get := (·.page), set := fun a s => { s with page := some a } }]
  empty := {}
  finish s := some s.complete
  independent := by
    simp only [List.pairwise_cons, List.forall_mem_cons, List.not_mem_nil, List.Pairwise.nil,
      false_implies, implies_true, and_true]
    refine ⟨⟨?_, ?_⟩, ?_⟩ <;>
      exact ⟨by decide, fun _ _ => rfl, fun _ _ => rfl, fun _ _ _ => rfl⟩
  get_set := by simp
  get_empty := by simp
  finish_set := by
    simp only [List.forall_mem_cons, List.not_mem_nil, false_implies, implies_true, and_true]
    refine ⟨?_, ?_, ?_⟩ <;>
      · rintro _ ⟨⟩ s hs
        rw [SchemaParts.complete, SchemaParts.complete, hs]
        rfl

/-- The fields of a sort field, which must both be there. -/
def sortFieldRecord : Record Kind.Value SortFieldParts SortField where
  fields :=
    [{ name := "field", kind := .name, default? := none
       get := (·.field), set := fun a s => { s with field := some a } },
     { name := "order", kind := .direction, default? := none
       get := (·.order), set := fun a s => { s with order := some a } }]
  empty := {}
  finish s := do return ⟨← s.field, ← s.order⟩
  independent := by
    simp only [List.pairwise_cons, List.forall_mem_cons, List.not_mem_nil, List.Pairwise.nil,
      false_implies, implies_true, and_true]
    exact ⟨by decide, fun _ _ => rfl, fun _ _ => rfl, fun _ _ _ => rfl⟩
  get_set := by simp
  get_empty := by simp
  finish_set := by simp

/-- `s.record` are the fields of the objects `s`. -/
def Struct.record : (s : Struct) → Record Kind.Value s.Parts s.Value
  | .schema    => schemaRecord
  | .filter    => filterRecord
  | .sort      => sortRecord
  | .page      => pageRecord
  | .sortField => sortFieldRecord

/-! ### Values -/

/-- `fieldsOf levels v` are the fields that a facet may name, as `v` has them. -/
def fieldsOf (levels : Nat) : Tree → Option Fields
  | .null => some .any
  | v     => (v.asList? levels fun _ => Tree.asString?).map .only

/-- `valueOf levels k v` is what `v` is under a key of the kind `k`, if it is good there. Objects
and lists may be nested `levels` deep in it. -/
def valueOf : Nat → (k : Kind) → Tree → Option k.Value
  | _, .switch, v                       => v.asBool?
  | _, .count, v                        => v.asPositive?
  | _, .name, v                         => v.asString?
  | levels, .direction, v               => v.asChoice? levels Direction.ofName?
  | levels, .fields, v                  => fieldsOf levels v
  | levels, .map, v                     => v.asMap? levels
  | inner + 1, .sortFields, .array vs   => vs.mapM (valueOf inner (.struct .sortField))
  | _, .sortFields, _                   => none
  | 0, .struct _, _                     => none
  | inner + 1, .struct s, v             => s.record.read (valueOf inner) v

/-- An object of a schema is read as its record is, one level further in. -/
theorem valueOf_struct (levels : Nat) (s : Struct) :
    valueOf levels (.struct s) = s.record.interpret valueOf levels := by
  funext v
  cases levels with
  | zero => rfl
  | succ inner => rfl

theorem valueOf_sortFields (levels : Nat) :
    valueOf levels .sortFields =
      Tree.asList? levels fun inner => valueOf inner (.struct .sortField) := by
  funext v
  cases levels with
  | zero => cases v <;> rfl
  | succ inner => cases v <;> rfl

/-! ### Readers -/

/-- **The fields that a facet may name** are `null`, which stands for any, or a list of strings. The
token that comes first decides which of the two is tried. -/
theorem interprets_fieldsReader (levels : Nat) :
    Interprets (fieldsReader levels) (fieldsOf levels) := by
  intro bs t v rest hbs ht hrest
  have hlist := (interprets_list (fun _ => interprets_string "a string") levels blank_nil ht
    hrest).map Fields.only
  refine yields_token_of_spells hbs ht fun c hc => ?_
  cases hc with
  | null =>
      cases ht
      exact (yields_word _ rest).andThen (.pure Fields.any rest)
  | number hc =>
      split
      · next h => exact absurd (Option.some.inj h) (ne_of_begins_number hc).1
      · exact hlist
  | _ => exact hlist

variable (levels : Nat)

/-- The readers of single fields come first: a switch takes truth values, and so on for the other
kinds. -/
theorem interprets_switch : Interprets boolean (valueOf levels .switch) :=
  interprets_boolean.congr fun v => by rw [valueOf]

theorem interprets_size : Interprets positive (valueOf levels .count) :=
  interprets_positive.congr fun v => by rw [valueOf]

theorem interprets_name : Interprets (string "a string") (valueOf levels .name) :=
  (interprets_string _).congr fun v => by rw [valueOf]

theorem interprets_direction :
    Interprets (choice levels Direction.ofName? "`asc` or `desc`") (valueOf levels .direction) :=
  (interprets_choice _ _ levels).congr fun v => by rw [valueOf]

theorem interprets_fields : Interprets (fieldsReader levels) (valueOf levels .fields) :=
  (interprets_fieldsReader levels).congr fun v => by rw [valueOf]

theorem interprets_default : Interprets (Reader.map levels) (valueOf levels .map) :=
  (interprets_map levels).congr fun v => by rw [valueOf]

/-- **The reader of a filter schema** takes what its record says, whatever the order of its members.
-/
theorem interprets_filterReader :
    Interprets (filterReader levels) (valueOf levels (.struct .filter)) := by
  rw [valueOf_struct]
  refine interprets_record (R := filterRecord) (fun inner => ?_) (fun s cs => .pure s.complete cs)
    (fun s cs => .pure s.complete cs) _ levels
  exact .cons (.of_interprets rfl (fun _ => rfl) (fun _ => rfl) (interprets_switch inner)) <|
    .cons (.of_interprets rfl (fun _ => rfl) (fun _ => rfl) (interprets_fields inner)) <|
    .cons (.of_interprets rfl (fun _ => rfl) (fun _ => rfl) (interprets_default inner)) .nil

theorem interprets_sortFieldReader :
    Interprets (sortFieldReader levels) (valueOf levels (.struct .sortField)) := by
  rw [valueOf_struct]
  refine interprets_record (R := sortFieldRecord) (fun inner => ?_) ?_ ?_ _ levels
  · exact .cons (.of_interprets rfl (fun _ => rfl) (fun _ => rfl) (interprets_name inner)) <|
      .cons (.of_interprets rfl (fun _ => rfl) (fun _ => rfl) (interprets_direction inner)) .nil
  · rintro ⟨_ | field, _ | order⟩ cs
    · exact .unfit _
    · exact .unfit _
    · exact .unfit _
    · exact .pure _ cs
  · rintro ⟨_ | field, _ | order⟩ cs
    · exact .unfit _
    · exact .unfit _
    · exact .unfit _
    · exact .pure _ cs

/-- The default sort is a list, each item of which is read as a sort field. -/
theorem interprets_sortFields :
    Interprets (list levels sortFieldReader) (valueOf levels .sortFields) := by
  rw [valueOf_sortFields]
  exact interprets_list interprets_sortFieldReader levels

theorem interprets_sortReader :
    Interprets (sortReader levels) (valueOf levels (.struct .sort)) := by
  rw [valueOf_struct]
  refine interprets_record (R := sortRecord) (fun inner => ?_) (fun s cs => .pure s.complete cs)
    (fun s cs => .pure s.complete cs) _ levels
  exact .cons (.of_interprets rfl (fun _ => rfl) (fun _ => rfl) (interprets_switch inner)) <|
    .cons (.of_interprets rfl (fun _ => rfl) (fun _ => rfl) (interprets_fields inner)) <|
    .cons (.of_interprets rfl (fun _ => rfl) (fun _ => rfl) (interprets_sortFields inner)) .nil

/-- The reader of a page schema takes what its record says. Its counts are positive, so no page is
empty. -/
theorem interprets_pageReader :
    Interprets (pageReader levels) (valueOf levels (.struct .page)) := by
  rw [valueOf_struct]
  refine interprets_record (R := pageRecord) (fun inner => ?_) (fun s cs => .pure s.complete cs)
    (fun s cs => .pure s.complete cs) _ levels
  exact .cons (.of_interprets rfl (fun _ => rfl) (fun _ => rfl) (interprets_switch inner)) <|
    .cons (.of_interprets rfl (fun _ => rfl) (fun _ => rfl) (interprets_size inner)) <|
    .cons (.of_interprets rfl (fun _ => rfl) (fun _ => rfl) (interprets_size inner)) .nil

/-- **The reader of schemas** takes what `valueOf` says a value is good for, and fails on any other.
-/
theorem interprets_schemaReader :
    Interprets (schemaReader levels) (valueOf levels (.struct .schema)) := by
  rw [valueOf_struct]
  refine interprets_record (R := schemaRecord) (fun inner => ?_) (fun s cs => .pure s.complete cs)
    (fun s cs => .pure s.complete cs) _ levels
  exact .cons (.of_interprets rfl (fun _ => rfl) (fun _ => rfl) (interprets_filterReader inner)) <|
    .cons (.of_interprets rfl (fun _ => rfl) (fun _ => rfl) (interprets_sortReader inner)) <|
    .cons (.of_interprets rfl (fun _ => rfl) (fun _ => rfl) (interprets_pageReader inner)) .nil

/-- What the readers take is a value of the grammar: they accept nothing that is no text of a value.
-/
theorem grammatical_fieldsReader : Grammatical (fieldsReader levels) := by
  refine .token fun x c f c' _ h => ?_
  split at h
  · exact consumes_of_word .null h
  · exact (grammatical_list (fun _ => grammatical_string _) levels).map Fields.only h

theorem grammatical_filterReader : Grammatical (filterReader levels) := by
  refine grammatical_record (fun inner => ?_) (fun _ => keeps_pure _) (fun _ => keeps_pure _) _
    levels _
  simp only [FilterParts.slots, List.forall_mem_cons]
  exact ⟨fun _ => grammatical_boolean.map _, fun _ => (grammatical_fieldsReader inner).map _,
    fun _ => (grammatical_map inner).map _, nofun⟩

theorem grammatical_sortFieldReader : Grammatical (sortFieldReader levels) := by
  have hobject (s : SortFieldParts) : Keeps s.ofObject := by
    rcases s with ⟨_ | field, _ | order⟩
    · exact nofun
    · exact nofun
    · exact nofun
    · exact keeps_pure _
  have hlist (s : SortFieldParts) : Keeps s.ofList := by
    rcases s with ⟨_ | field, _ | order⟩
    · exact nofun
    · exact nofun
    · exact nofun
    · exact keeps_pure _
  refine grammatical_record (fun inner => ?_) hobject hlist _ levels _
  simp only [SortFieldParts.slots, List.forall_mem_cons]
  exact ⟨fun _ => (grammatical_string _).map _, fun _ => (grammatical_choice _ _ _).map _, nofun⟩

theorem grammatical_sortReader : Grammatical (sortReader levels) := by
  refine grammatical_record (fun inner => ?_) (fun _ => keeps_pure _) (fun _ => keeps_pure _) _
    levels _
  simp only [SortParts.slots, List.forall_mem_cons]
  exact ⟨fun _ => grammatical_boolean.map _, fun _ => (grammatical_fieldsReader inner).map _,
    fun _ => (grammatical_list grammatical_sortFieldReader inner).map _, nofun⟩

theorem grammatical_pageReader : Grammatical (pageReader levels) := by
  refine grammatical_record (fun inner => ?_) (fun _ => keeps_pure _) (fun _ => keeps_pure _) _
    levels _
  simp only [PageParts.slots, List.forall_mem_cons]
  exact ⟨fun _ => grammatical_boolean.map _, fun _ => grammatical_positive.map _,
    fun _ => grammatical_positive.map _, nofun⟩

/-- **Only a value** is read as a schema. Induction is not needed: a record is grammatical if its
fields are, and these are the cases from the inside out. -/
theorem grammatical_schemaReader : Grammatical (schemaReader levels) := by
  refine grammatical_record (fun inner => ?_) (fun _ => keeps_pure _) (fun _ => keeps_pure _) _
    levels _
  simp only [SchemaParts.slots, List.forall_mem_cons]
  exact ⟨fun _ => (grammatical_filterReader inner).map _,
    fun _ => (grammatical_sortReader inner).map _, fun _ => (grammatical_pageReader inner).map _,
    nofun⟩

/-! ### Texts that are accepted -/

theorem read_eq_ok_iff {text : String} {v : Tree} (hv : Writes text v) {s : Schema} :
    read text = .ok s ↔ valueOf maxLevels (.struct .schema) v = some s :=
  (interprets_schemaReader maxLevels).run_eq_ok_iff hv

/-- **A text that is accepted** is one of a value, and of one that is good for a schema. No other
text is accepted, and none of these is refused. -/
theorem read_eq_ok_iff_exists {text : String} {s : Schema} :
    read text = .ok s ↔
      ∃ v, Writes text v ∧ valueOf maxLevels (.struct .schema) v = some s := by
  constructor
  · intro h
    obtain ⟨v, hv⟩ := (grammatical_schemaReader maxLevels).writes_of_run h
    exact ⟨v, hv, (read_eq_ok_iff hv).mp h⟩
  · rintro ⟨v, hv, hs⟩
    exact (read_eq_ok_iff hv).mpr hs

end FacetQuery.Schema
