import FacetQuery.Proofs.Facet.Filter
import FacetQuery.Proofs.Facet.Sort
import FacetQuery.Proofs.Text.Split

/-!
# Facet — Requests that say the same

A sort can be written in three ways, and a comparison by `=` in two.  They are read by different
code, and what is read is the same to the last entry, so nothing behind tells them apart.

* `Sort.Spells fs v`: `v` is one of the three ways to sort by the fields `fs`;
  `Sort.entries_of_spells`: it is read as these fields.
* `Filter.Respells fields fields'`: some bare values of a filter are put under `=`;
  `Filter.entriesOf_of_respells`: its entries are the same.
* `Facet.Respelled f r r'`: two requests that differ in such ways at the facet `f`;
  `Facet.alike_of_respelled`: the facet is listed and run alike for both.
-/

/-! ### Sorts -/

namespace FacetQuery.Sort

open Json Text

/-- `IsPlain name` says that a field of this name can be written in a text of several fields. -/
structure IsPlain (name : String) : Prop where
  nonempty : name ≠ ""
  trimmed : trim name.toList = name.toList
  unsplit : ',' ∉ name.toList
  unsigned : name.toList.head? ≠ some '-'

/-- `marked f` is the name of a field, behind a minus sign if it is descending. -/
def marked (f : SortField) : List Char :=
  match f.order with
  | .asc  => f.field.toList
  | .desc => '-' :: f.field.toList

/-- `Spells fs v` says that `v` is a sort by the fields `fs`. -/
inductive Spells (fs : List SortField) : Value → Prop where
  /-- The fields between commas. -/
  | text : Spells fs (.string (String.ofList ([','].intercalate (fs.map marked))))
  /-- One text a field. -/
  | array : Spells fs (.array (fs.map fun f => .string (String.ofList (marked f))))
  /-- One member a field, with the name of its direction. -/
  | object : Spells fs (.object (fs.map fun f => (f.field, .string f.order.name)))

variable {f : SortField} {fs : List SortField}

/-- A field that can be written among others leaves a piece that is not empty. -/
theorem marked_ne_nil (h : IsPlain f.field) : marked f ≠ [] := by
  unfold marked
  split
  · exact fun hnil => h.nonempty (String.toList_eq_nil_iff.mp hnil)
  · exact List.cons_ne_nil _ _

theorem comma_notMem_marked (h : IsPlain f.field) : ',' ∉ marked f := by
  unfold marked
  split
  · exact h.unsplit
  · exact List.not_mem_cons_of_ne_of_not_mem (by decide) h.unsplit

theorem trim_marked (h : IsPlain f.field) : trim (marked f) = marked f := by
  unfold marked
  split
  · exact h.trimmed
  · obtain ⟨-, -, hlast⟩ := trimmed_iff.mpr h.trimmed
    -- The minus sign is no blank, and behind it stands a name.
    obtain ⟨c, cs, hname⟩ := List.exists_cons_of_ne_nil (mt String.toList_eq_nil_iff.mp h.nonempty)
    refine Trimmed.trim_eq ⟨⟨[], [], by simp, by simp, by simp⟩, ?_, ?_⟩
    · rintro c ⟨⟩
      decide
    · rw [hname] at hlast ⊢
      exact hlast

theorem signed_marked (h : IsPlain f.field) : signed (marked f) = f := by
  obtain ⟨field, order⟩ := f
  cases order with
  | asc =>
      have hmarked : marked ⟨field, .asc⟩ = field.toList := rfl
      rw [hmarked]
      unfold signed
      split
      · next cs hcs => exact absurd (congrArg List.head? hcs) h.unsigned
      · rw [String.ofList_toList]
  | desc =>
      have hmarked : marked ⟨field, .desc⟩ = '-' :: field.toList := rfl
      rw [hmarked, signed, String.ofList_toList]

/-- **A text of several fields** is read as these fields: cut at its commas, each piece is a name
behind its sign. -/
theorem ofText_intercalate (h : ∀ f ∈ fs, IsPlain f.field) :
    ofText ([','].intercalate (fs.map marked)) = fs := by
  have htrim : (fs.map marked).map trim = fs.map marked := by
    rw [List.map_map]
    exact List.map_congr_left fun f hf => trim_marked (h f hf)
  have hnames : (fs.map marked).filter (· ≠ []) = fs.map marked := by
    refine List.filter_eq_self.mpr fun cs hcs => ?_
    obtain ⟨f, hf, rfl⟩ := List.mem_map.mp hcs
    exact decide_eq_true (marked_ne_nil (h f hf))
  have hsigned : (fs.map marked).map signed = fs := by
    rw [List.map_map]
    exact (List.map_congr_left fun f hf => signed_marked (h f hf)).trans (List.map_id fs)
  cases fs with
  | nil => rfl
  | cons f fs =>
      have hsplit :
          splitOn ',' ([','].intercalate ((f :: fs).map marked)) = (f :: fs).map marked := by
        refine splitOn_intercalate fun cs hcs => ?_
        rw [← List.map_cons] at hcs
        obtain ⟨g, hg, rfl⟩ := List.mem_map.mp hcs
        exact comma_notMem_marked (h g hg)
      -- The pieces between the commas are the names with their signs, as no name has a comma.
      rw [ofText, hsplit, htrim, hnames, hsigned]

theorem mapM_ofItem_marked (h : ∀ f ∈ fs, IsPlain f.field) :
    (fs.map fun f => Value.string (String.ofList (marked f))).mapM ofItem = .ok fs := by
  rw [mapM_eq_ok_iff, List.forall₂_map_left_iff, List.forall₂_same]
  intro f hf
  rw [ofItem, String.toList_ofList, trim_marked (h f hf), signed_marked (h f hf)]

/-- **All three ways to write a sort** are read as its fields, entry by entry and in order, whoever
reads them. -/
theorem entries_of_spells (h : ∀ f ∈ fs, IsPlain f.field) {v : Value} (hv : Spells fs v) :
    entries v = .ok (fs.map ofField) := by
  cases hv with
  | text   => rw [entries, String.toList_ofList, ofText_intercalate h]
  | array  => rw [entries, mapM_ofItem_marked h]; rfl
  | object => rfl

end FacetQuery.Sort

namespace FacetQuery

open Json

/-! ### Filters -/

namespace Filter

/-- `Bares c c'` says that the condition `c'` is `c`, or a bare `c` under `=`. -/
inductive Bares : Value → Value → Prop where
  | same (c : Value) : Bares c c
  | named {c : Value} : (∀ operators, c ≠ .object operators) → Bares c (.object [("=", c)])

/-- `Respells fields fields'` says that the filter `fields'` is `fields` with some of its bare
values under `=`. -/
def Respells (fields fields' : Dictionary Value) : Prop :=
  List.Forall₂ (fun m m' => m'.1 = m.1 ∧ Bares m.2 m'.2) fields fields'

theorem entriesAt_of_bares {c c' : Value} (h : Bares c c') (field : String) :
    entriesAt field c' = entriesAt field c := by
  cases h with
  | same => rfl
  | named hbare =>
      cases c with
      | object operators => exact absurd rfl (hbare operators)
      | _ => rfl

theorem entriesOf_of_respells {fields fields' : Dictionary Value} (h : Respells fields fields') :
    entriesOf fields' = entriesOf fields := by
  induction h with
  | nil => rfl
  | cons hm _ ih =>
      rw [entriesOf, entriesOf, List.flatMap_cons, List.flatMap_cons, hm.1,
        entriesAt_of_bares hm.2, ← entriesOf, ← entriesOf, ih]

/-- **A filter that is written otherwise** has the same predicates, or is refused alike, since its
entries are the same. -/
theorem predicates_of_respells {fields fields' : Dictionary Value} (h : Respells fields fields') :
    predicates fields' = predicates fields := by
  rw [predicates_eq_mapM, predicates_eq_mapM, entriesOf_of_respells h]

end Filter

/-! ### Runs -/

namespace Facet

/-- `Respelled f r r'` says that `r'` is written otherwise than `r` at the facet `f`. -/
inductive Respelled : Facet → Request → Request → Prop where
  /-- The sort of a request in another of the three ways. -/
  | sort {params params' : Dictionary Value} {schema : Schema} {fs : List SortField}
      {v v' : Value} :
      (∀ f ∈ fs, Sort.IsPlain f.field) → Sort.Spells fs v → Sort.Spells fs v' →
      Dictionary.find? Sort.parameter params = some v →
      Dictionary.find? Sort.parameter params' = some v' →
      Respelled .sort ⟨params, schema⟩ ⟨params', schema⟩
  /-- The filter of a request with some of its bare values under `=`. -/
  | filter {params params' fields fields' : Dictionary Value} {schema : Schema} :
      Filter.Respells fields fields' →
      Dictionary.find? Filter.parameter params = some (.object fields) →
      Dictionary.find? Filter.parameter params' = some (.object fields') →
      Respelled .filter ⟨params, schema⟩ ⟨params', schema⟩
  /-- The schema's filter, likewise. -/
  | default {params default' : Dictionary Value} {schema : Schema} :
      Filter.Respells schema.filter.default default' →
      Respelled .filter ⟨params, schema⟩
        ⟨params, { schema with filter := { schema.filter with default := default' } }⟩

/-- `Alike f r r'` says that the facet `f` makes no difference between two requests. -/
structure Alike (f : Facet) (r r' : Request) : Prop where
  flat : f.flat r' = f.flat r
  flatPrefixed : f.flatPrefixed r' = f.flatPrefixed r
  /-- The outcome is the same, and so is the query, from any start and with any backend. -/
  run : ∀ {β : Type} (b : Backend β), f.run b r' = f.run b r

/-- A facet makes no difference between requests that are switched on, listed and checked alike for
it. -/
theorem alike_of_eq {f : Facet} {r r' : Request}
    (hon : f.isEnabled r'.schema = f.isEnabled r.schema) (hentries : f.entries r' = f.entries r)
    (hcheck : ∀ v, f.check v r' = f.check v r) : Alike f r r' := by
  have hflat : f.flat r' = f.flat r := by rw [Facet.flat, Facet.flat, hon, hentries]
  refine ⟨hflat, by rw [Facet.flatPrefixed, Facet.flatPrefixed, hflat], fun b => ?_⟩
  rw [Facet.run, Facet.run, hflat, validate, validate, hon, hcheck]

/-- **It makes no difference how a request is written.** What a facet lists is the same, what it
checks is the same, and so is its run in any backend. -/
theorem alike_of_respelled {f : Facet} {r r' : Request} (h : Respelled f r r') : Alike f r r' := by
  cases h with
  | @sort params params' schema fs v v' hplain hv hv' hparam hparam' =>
      -- Both sorts are read as the same fields, and nothing else of them is looked at.
      have hentries : Sort.entries v' = Sort.entries v :=
        (Sort.entries_of_spells hplain hv').trans (Sort.entries_of_spells hplain hv).symm
      refine alike_of_eq rfl ?_ fun w => ?_
      · simp only [entries, Sort.flat, Request.param?, hparam, hparam', hentries]
      · simp only [check, Sort.validate, Request.param?, hparam, hparam', hentries]
  | @filter params params' fields fields' schema hfields hparam hparam' =>
      have hrequested : Filter.requested ⟨params', schema⟩ = Filter.requested ⟨params, schema⟩ := by
        simp only [Filter.requested, Request.param?, hparam, hparam', Filter.ofValue,
          Filter.predicates_of_respells hfields]
      refine alike_of_eq rfl ?_ fun w => ?_
      · simp only [entries, Filter.flat, hrequested]
      · simp only [check, Filter.validate, hrequested, Request.param?, hparam, hparam',
          Option.isSome_some]
  | @default params default' schema hfields =>
      -- The schema's own filter may be written otherwise as well.
      have hrequested : Filter.requested ⟨params, { schema with filter := { schema.filter with
          default := default' } }⟩ = Filter.requested ⟨params, schema⟩ := by
        simp only [Filter.requested, Request.param?, Filter.predicates_of_respells hfields]
      refine alike_of_eq rfl ?_ fun w => ?_
      · simp only [entries, Filter.flat, hrequested]
      · simp only [check, Filter.validate, hrequested]
        rfl

/-- Sorts by two fields, one of them descending, in a text. -/
def listed : Request := ⟨[("sort", .string "-at,id")], .standard⟩

/-- Sorts by the same fields in an object. -/
def directed : Request :=
  ⟨[("sort", .object [("at", .string "desc"), ("id", .string "asc")])], .standard⟩

theorem respelled_listed : Respelled .sort listed directed := by
  have hplain : ∀ f ∈ [(⟨"at", .desc⟩ : SortField), ⟨"id", .asc⟩], Sort.IsPlain f.field := by
    intro f hf
    rcases List.mem_pair.mp hf with rfl | rfl
    · exact ⟨by decide, by decide, by decide, by decide⟩
    · exact ⟨by decide, by decide, by decide, by decide⟩
  have htext : Sort.Spells [⟨"at", .desc⟩, ⟨"id", .asc⟩] (.string "-at,id") := .text
  exact .sort hplain htext .object rfl rfl

theorem alike_of_respelled_listed :
    Respelled .sort listed directed ∧ Alike .sort listed directed :=
  ⟨respelled_listed, alike_of_respelled respelled_listed⟩

end Facet

end FacetQuery
