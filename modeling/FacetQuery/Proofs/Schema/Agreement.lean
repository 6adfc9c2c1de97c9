import FacetQuery.Proofs.Json.Reader.Range
import FacetQuery.Proofs.Schema.Edits
import FacetQuery.Proofs.Schema.Parts
import FacetQuery.Proofs.Schema.ReadBack

/-!
# Schema — The description and the reader agree

The description of schemas is written for editors and other checkers, and the reader does not look
at it: what both say of a schema is kept in step by hand. Both are about values, and every text of
a value is one of the grammar, whoever reads it.

* `Schema.exists_read_iff_isKept`: a text as described is read if what is kept of it can be kept.
* `Schema.described_toTree`: every schema is written as described.
* `Schema.document_agrees`: both, and which numbers can be kept.
* `Schema.described_but_not_kept`: not everything that is as described can be kept.
-/

namespace FacetQuery.Schema

open Json Json.Reader

/-! ### What is as described is read -/

/-- `HasWholeCounts v`: the counts that the reader takes from `v` are written as whole numbers of 64
bits. -/
def HasWholeCounts (v : Tree) : Prop :=
  ∀ l w, Part (.struct .schema) v l w → l = .count → IsWhole w

/-- `IsKept v`: what the reader keeps of `v` can be kept. In the objects of the schema, all keys are
strings; names of fields are strings; and the default filter has strings for its keys, and no string
or number in it that has no place in a value. -/
def IsKept (v : Tree) : Prop :=
  ∀ l w, Part (.struct .schema) v l w → l.Keeps w

/-- **A text as described** is read, if what is kept of it can be kept. The description and the
reader are both about the value of the text. -/
theorem exists_read_iff_isKept {text : String} {v : Tree} (hv : Writes text v)
    (hdistinct : v.Distinct) (hfits : v.Fits maxLevels) (h : Document.Describes document v)
    (hwhole : HasWholeCounts v) : (∃ s, read text = .ok s) ↔ IsKept v := by
  rw [exists_congr fun s => read_eq_ok_iff hv (s := s)]
  exact exists_valueOf_iff (describes_iff.mp h) hdistinct hfits hwhole

/-! ### What is written is as described -/

section

variable {f : Number → NumberParts}

/-- The names of a restriction are in order, and so none is there twice. -/
theorem described_toTree_fields (fields : Fields) : Described .fields (fields.toValue.toTree f) := by
  obtain ⟨_ | set⟩ := fields
  · rw [Fields.toValue, Value.toTree_null]
    exact .unrestricted
  · have hnames : Value.toTree f (.array (set.names.map .string)) =
        .array ((set.names.map some).map .string) := by
      simp
    have hpairwise : ((set.names.map some).map Tree.string).Pairwise fun x y => ¬ x.Same y := by
      rw [List.map_map, List.pairwise_map]
      refine set.ascending.imp fun hlt hsame => ?_
      rw [Tree.same_string_iff.mp hsame] at hlt
      exact String.lt_irrefl _ hlt
    rw [Fields.toValue, hnames]
    exact .restricted hpairwise

theorem described_toTree_filter (s : FilterSchema) :
    Described (.struct .filter) (s.toValue.toTree f) := by
  rw [FilterSchema.toValue, Value.toTree_object]
  refine .struct (by simp [Struct.record, filterRecord]) ?_
  simp [Struct.record, filterRecord, Described.switch, described_toTree_fields, Described.map]

theorem described_toTree_sortField (s : SortField) :
    Described (.struct .sortField) (s.toValue.toTree f) := by
  rw [SortField.toValue, Value.toTree_object]
  refine .struct (by simp [Struct.record, sortFieldRecord]) ?_
  simp [Struct.record, sortFieldRecord, Described.name, Described.direction]

theorem described_toTree_sortFields (fields : List SortField) :
    Described .sortFields (Value.toTree f (.array (fields.map SortField.toValue))) := by
  rw [Value.toTree_array]
  refine .sortFields fun v hv => ?_
  simp only [List.map_map, List.mem_map] at hv
  obtain ⟨s, -, rfl⟩ := hv
  exact described_toTree_sortField s

theorem described_toTree_sort (s : SortSchema) :
    Described (.struct .sort) (s.toValue.toTree f) := by
  have hdefault := described_toTree_sortFields (f := f) s.default
  rw [SortSchema.toValue, Value.toTree_object]
  refine .struct (by simp [Struct.record, sortRecord]) ?_
  simpa [Struct.record, sortRecord, Described.switch, described_toTree_fields] using hdefault

/-- A count of one or more is described as a count. -/
theorem described_toTree_count (hf : Number.Spelling f) {n : UInt64} (hn : 1 ≤ n) :
    Described .count (Value.toTree f (.ofUInt64 n)) := by
  rw [Value.ofUInt64, Value.toTree_number, Number.ofUInt64, hf.whole]
  have hvalue : (wholeParts (.ofUInt64 n)).toRat = n.toNat := by
    have hnegative : ¬ (n.toNat : ℤ) < 0 := by omega
    rw [NumberParts.toRat_of_whole rfl rfl]
    simp only [wholeParts, Integer.val_ofUInt64, hnegative, decide_false, Bool.false_eq_true,
      if_false, Int.natAbs_natCast, digitsValue_digits, one_mul]
  refine .count ⟨n.toNat, by rw [hvalue, Int.cast_natCast]⟩ ?_
  rw [hvalue]
  exact_mod_cast UInt64.le_iff_toNat_le.mp hn

/-- A page schema is written as described if its counts are at least one, for `0` is not described
as a count. -/
theorem described_toTree_page (hf : Number.Spelling f) {s : PageSchema}
    (hsize : 1 ≤ s.defaultSize) (hnumber : 1 ≤ s.defaultNumber) :
    Described (.struct .page) (s.toValue.toTree f) := by
  rw [PageSchema.toValue, Value.toTree_object]
  refine .struct (by simp [Struct.record, pageRecord]) ?_
  simp [Struct.record, pageRecord, Described.switch, described_toTree_count hf hsize,
    described_toTree_count hf hnumber]

/-- **Every schema is written as described**, if its page size and number are at least one. The
reader gives no other schemas. -/
theorem described_toTree (hf : Number.Spelling f) {s : Schema}
    (hsize : 1 ≤ s.page.defaultSize) (hnumber : 1 ≤ s.page.defaultNumber) :
    Described (.struct .schema) (s.toValue.toTree f) := by
  rw [toValue, Value.toTree_object]
  refine .struct (by simp [Struct.record, schemaRecord]) ?_
  simp [Struct.record, schemaRecord, described_toTree_filter, described_toTree_sort,
    described_toTree_page hf hsize hnumber]

end

/-! ### Both together -/

/-- **The description and the reader agree.** A text of a value without repeated keys, no deeper
than the reader follows, is read as a schema if the value is as described, its counts are whole
numbers of 64 bits, and what the reader keeps of it can be kept; numbers up to `10 ^ 308` can. And
what is written for a schema is a text of a value that is as described, if its page size and number
are at least one. -/
theorem document_agrees :
    (∀ text v, Writes text v → v.Distinct → v.Fits maxLevels → Document.Describes document v →
      HasWholeCounts v → ((∃ s, read text = .ok s) ↔ IsKept v)) ∧
    (∀ p : NumberParts, p.Spelled → p.power.natAbs ≤ NumberParts.maxExponent →
      |p.toRat| ≤ 10 ^ 308 → (Tree.number p).Decodes) ∧
    (∀ s : Schema, 1 ≤ s.page.defaultSize → 1 ≤ s.page.defaultNumber →
      ∃ v, Writes s.write v ∧ Document.Describes document v) := by
  refine ⟨fun text v => exists_read_iff_isKept, fun p hp hpower hle => ?_,
    fun s hsize hnumber => ?_⟩
  · exact Tree.decodes_number_iff.mpr (NumberParts.exists_number?_of_le hp hpower hle)
  · obtain ⟨f, hf⟩ := Number.exists_spelling
    -- One value does for both: the text is one of it, and it is as described.
    exact ⟨s.toValue.toTree f, writes_write hf s,
      describes_iff.mpr (described_toTree hf hsize hnumber)⟩

/-- One with an exponent, or minus one, is a number as the grammar has them. -/
theorem spelled_power (negative : Bool) {ds : List Char} (hds : NumberParts.Digits ds) :
    NumberParts.Spelled ⟨negative, ['1'], none, some (false, ds)⟩ where
  whole := ⟨by simp, by simp⟩
  leading := by simp
  fraction := by simp
  exponent := by
    rintro _ _ ⟨⟩
    exact hds

/-- A number that is out of the range of doubles, so that no value can hold it. -/
def great : Tree := .number ⟨false, ['1'], none, some (false, ['9', '9', '9'])⟩

theorem spells_great : Spells ['1', 'e', '9', '9', '9'] great :=
  .number (.intro (spelled_power false ⟨by simp, by simp⟩)
    (@SpellsPower.some 'e' [] _ _ (.inl rfl) .none))

theorem toRat_five : NumberParts.toRat ⟨false, ['5'], none, none⟩ = 5 := by
  rw [NumberParts.toRat_of_whole rfl rfl]
  simp [digitsValue]

/-- A page schema beside an unknown member. -/
def besidePage : Tree :=
  .object [(some "x", great), (some "page", .object [(some "defaultSize", five)])]

theorem writes_besidePage :
    Writes "\x7b\"x\":1e999,\"page\":\x7b\"defaultSize\":5\x7d\x7d" besidePage :=
  .of_spells (@Spells.object _ [.compact "x" _ _, .compact "page" _ _]
    (.first blank_nil (.next blank_nil blank_nil (.nil blank_nil)))
    (List.forall_mem_cons.mpr ⟨Member.keyed_compact (by simp) _ _,
      List.forall_mem_singleton.mpr (Member.keyed_compact (by simp) _ _)⟩)
    (List.forall_mem_cons.mpr ⟨spells_great,
      List.forall_mem_singleton.mpr (.single (by simp) spells_five)⟩)) (by decide)

theorem distinct_besidePage : besidePage.Distinct := by
  refine .object (by simp) (List.forall_mem_cons.mpr ⟨.number _, List.forall_mem_singleton.mpr ?_⟩)
  exact .object (by simp) (List.forall_mem_singleton.mpr (.number _))

theorem fits_besidePage (levels : Nat) : besidePage.Fits (levels + 2) := by
  refine .object (List.forall_mem_cons.mpr ⟨.number _ _, List.forall_mem_singleton.mpr ?_⟩)
  exact .object (List.forall_mem_singleton.mpr (.number _ _))

/-- The unknown member is no part. -/
theorem forall_part_besidePage {P : Kind → Tree → Prop} (hschema : P (.struct .schema) besidePage)
    (hpage : P (.struct .page) (.object [(some "defaultSize", five)])) (hsize : P .count five)
    (l : Kind) (w : Tree) (hw : Part (.struct .schema) besidePage l w) : P l w := by
  have hfive : ∀ l w, Part .count five l w → P l w :=
    (forall_part_iff (by simp) (by simp)).mpr hsize
  have hmember : ∀ l w, Part (.struct .page) (.object [(some "defaultSize", five)]) l w → P l w :=
    forall_part_struct_iff.mpr ⟨hpage, by simpa [Struct.record, pageRecord] using hfive⟩
  exact forall_part_struct_iff.mpr
    ⟨hschema, by simpa [Struct.record, schemaRecord] using hmember⟩ l w hw

theorem described_besidePage : Described (.struct .schema) besidePage := by
  have hfive : Described .count five := .count ⟨5, toRat_five⟩ (by rw [toRat_five]; norm_num)
  have hpage : Described (.struct .page) (.object [(some "defaultSize", five)]) :=
    .struct (by simp [Struct.record, pageRecord]) (by simpa [Struct.record, pageRecord] using hfive)
  exact .struct (by simp [Struct.record, schemaRecord])
    (by simpa [Struct.record, schemaRecord] using hpage)

/-- A number out of range under an unknown key is passed over. A number up to `10 ^ 308` is kept,
and the standard schema is written as described. -/
theorem document_agrees_sample :
    (∃ s, read "\x7b\"x\":1e999,\"page\":\x7b\"defaultSize\":5\x7d\x7d" = .ok s) ∧
      (Tree.number ⟨true, ['1'], none, some (false, ['3', '0', '8'])⟩).Decodes ∧
      ∃ v, Writes standard.write v ∧ Document.Describes document v := by
  refine ⟨?_, ?_, document_agrees.2.2 standard (by decide) (by decide)⟩
  · refine (document_agrees.1 _ _ writes_besidePage distinct_besidePage (fits_besidePage 125)
      (describes_iff.mpr described_besidePage) ?_).mpr ?_
    · refine forall_part_besidePage (by simp) (by simp) fun _ p hp => ?_
      cases hp
      exact ⟨rfl, rfl, by rw [toRat_five]; norm_num⟩
    · exact forall_part_besidePage (by simp [Kind.Keeps, besidePage]) (by simp [Kind.Keeps]) trivial
  · refine document_agrees.2.1 _ (spelled_power true ⟨by simp, by simp⟩) (by decide) ?_
    simp [NumberParts.toRat, NumberParts.fractionDigits, NumberParts.power, digitsValue]

/-! ### What is as described and cannot be kept -/

/-- `Overlooked text v`: nothing that the description says is against the value `v` of the text, and
still it is no schema to the reader. -/
structure Overlooked (text : String) (v : Tree) : Prop where
  writes : Writes text v
  distinct : v.Distinct
  fits : v.Fits maxLevels
  describes : Document.Describes document v
  hasWholeCounts : HasWholeCounts v
  rejected : ∀ s, read text ≠ .ok s

/-- A value that is as described in all the rest is overlooked if it cannot be kept: the reader
refuses its text. -/
theorem Overlooked.of_not_isKept {text : String} {v : Tree} (hv : Writes text v)
    (hdistinct : v.Distinct) (hfits : v.Fits maxLevels) (h : Document.Describes document v)
    (hwhole : HasWholeCounts v) (hkept : ¬ IsKept v) : Overlooked text v :=
  ⟨hv, hdistinct, hfits, h, hwhole, fun s hs =>
    hkept ((exists_read_iff_isKept hv hdistinct hfits h hwhole).mp ⟨s, hs⟩)⟩

/-- `byDefault v` is a default filter with the value `v` in it. -/
def byDefault (v : Tree) : Tree :=
  .object [(some "filter", .object [(some "default", .object [(some "a", v)])])]

/-- The default filter is taken as a whole. -/
theorem forall_part_byDefault_iff {P : Kind → Tree → Prop} {v : Tree} :
    (∀ l w, Part (.struct .schema) (byDefault v) l w → P l w) ↔
      P (.struct .schema) (byDefault v) ∧
        P (.struct .filter) (.object [(some "default", .object [(some "a", v)])]) ∧
        P .map (.object [(some "a", v)]) := by
  have hmap : (∀ l w, Part .map (.object [(some "a", v)]) l w → P l w) ↔
      P .map (.object [(some "a", v)]) := forall_part_iff (by simp) (by simp)
  have hfilter : (∀ l w, Part (.struct .filter)
        (.object [(some "default", .object [(some "a", v)])]) l w → P l w) ↔
      P (.struct .filter) (.object [(some "default", .object [(some "a", v)])]) ∧
        P .map (.object [(some "a", v)]) := by
    rw [forall_part_struct_iff, ← hmap]
    simp [Struct.record, filterRecord]
  rw [byDefault, forall_part_struct_iff, ← hfilter]
  simp [Struct.record, schemaRecord]

/-- The description says nothing of what is in the default filter. -/
theorem described_byDefault (v : Tree) : Described (.struct .schema) (byDefault v) := by
  have hfilter : Described (.struct .filter)
      (.object [(some "default", .object [(some "a", v)])]) :=
    .struct (by simp [Struct.record, filterRecord])
      (by simpa [Struct.record, filterRecord] using Described.map [(some "a", v)])
  exact .struct (by simp [Struct.record, schemaRecord])
    (by simpa [Struct.record, schemaRecord] using hfilter)

/-- What cannot be decoded in the default filter is overlooked there: the description allows any
members, with any values. -/
theorem overlooked_byDefault {text : String} {v : Tree} (hv : Writes text (byDefault v))
    (hdistinct : v.Distinct) (hfits : v.Fits 124) (h : ¬ v.Decodes) :
    Overlooked text (byDefault v) := by
  have hmap : (Tree.object [(some "a", v)]).Distinct :=
    .object (by simp) (List.forall_mem_singleton.mpr hdistinct)
  have hfilter : (Tree.object [(some "default", .object [(some "a", v)])]).Distinct :=
    .object (by simp) (List.forall_mem_singleton.mpr hmap)
  have hlevels : (Tree.object [(some "default", .object [(some "a", v)])]).Fits 126 :=
    .object (List.forall_mem_singleton.mpr (.object (List.forall_mem_singleton.mpr hfits)))
  refine .of_not_isKept hv (.object (by simp) (List.forall_mem_singleton.mpr hfilter))
    (.object (List.forall_mem_singleton.mpr hlevels)) (describes_iff.mpr (described_byDefault v))
    (forall_part_byDefault_iff.mpr ⟨by simp, by simp, by simp⟩) fun hkept => ?_
  obtain ⟨-, -, hmap⟩ := forall_part_byDefault_iff.mp hkept
  exact h ((Tree.decodes_object_iff.mp hmap).2 _ (List.mem_singleton_self _))

/-- A key is nothing that the description speaks of, so half a surrogate pair in its place is
overlooked. -/
theorem overlooked_lone_key :
    Overlooked "\x7b\"\\ud800\":null\x7d" (.object [(none, .null)]) := by
  have hparts {P : Kind → Tree → Prop} :
      (∀ l w, Part (.struct .schema) (.object [(none, .null)]) l w → P l w) ↔
        P (.struct .schema) (.object [(none, .null)]) := by
    rw [forall_part_struct_iff]
    simp
  refine .of_not_isKept writes_lone_key (.object (by simp) (List.forall_mem_singleton.mpr .null))
    (.object (List.forall_mem_singleton.mpr (.null _))) (describes_iff.mpr ?_)
    (hparts.mpr (by simp)) fun hkept => ?_
  · exact .struct (by simp [Struct.record, schemaRecord]) (by simp)
  · exact hparts.mp hkept _ (List.mem_singleton_self _) rfl

/-- **Not everything that is as described** is read: the description has nothing against numbers of
any size, or against halves of surrogate pairs. -/
theorem described_but_not_kept :
    Overlooked "\x7b\"filter\":\x7b\"default\":\x7b\"a\":1e999\x7d\x7d\x7d" (byDefault great) ∧
      Overlooked "\x7b\"filter\":\x7b\"default\":\x7b\"a\":\"\\ud800\"\x7d\x7d\x7d"
        (byDefault (.string none)) ∧
      Overlooked "\x7b\"\\ud800\":null\x7d" (.object [(none, .null)]) := by
  refine ⟨?_, ?_, overlooked_lone_key⟩
  · refine overlooked_byDefault ?_ (.number _) (.number _ _) ?_
    · exact .of_spells (.single (by simp) (.single (by simp) (.single (by simp) spells_great)))
        (by decide)
    · have hnone : NumberParts.number? ⟨false, ['1'], none, some (false, ['9', '9', '9'])⟩ = none := by
        decide +kernel
      simp [great, Tree.decodes_number_iff, hnone]
  · refine overlooked_byDefault ?_ (.string _) (.string _ _) (by simp [Tree.decodes_string_iff])
    exact .of_spells (.single (by simp) (.single (by simp) (.single (by simp)
      (.string spellsString_lone)))) (by decide)

end FacetQuery.Schema
