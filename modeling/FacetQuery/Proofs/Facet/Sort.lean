import FacetQuery.Proofs.Dictionary
import FacetQuery.Proofs.Facet.Basic
import FacetQuery.Proofs.Sql.Backend
import FacetQuery.Proofs.Text.Split
import Mathlib.Data.Set.List

/-!
# Facet — Sorting, field by field

* `Lists v es`: the sort `v` of a request lists the entries `es`, as a text, as an array or as an
  object; `Named v fs`: these are the fields `fs`, in this order and with these directions.
* `checkEntries_eq_ok_iff`: what it takes for entries to pass.
* `flat_of_validate`: a request's sort that passes names some fields, each once, and these are
  listed; `flat_default` and `mem_flat_default` are about the schema's sort.
* `apply_ok`, `run_ok`: over SQL, applying a list adds a key for each field in it, and so does a run
  that succeeds.
-/

namespace FacetQuery.Sort

open Json Sql

/-! ### Reading -/

/-- `Spelled cs f` says that the text `cs` stands for the field and direction `f`: one minus sign
in front means descending and does not belong to the field. -/
inductive Spelled : List Char → SortField → Prop where
  | desc (cs : List Char) : Spelled ('-' :: cs) ⟨String.ofList cs, .desc⟩
  | asc {cs : List Char} : cs.head? ≠ some '-' → Spelled cs ⟨String.ofList cs, .asc⟩

/-- `Lists v es` says that the sort `v` of a request lists the entries `es`. -/
inductive Lists : Value → List Entry → Prop where
  /-- The pieces between the commas of a text without the blanks around them; those of which
  nothing is left do not count. -/
  | text {s : String} {pieces names : List (List Char)} {fs : List SortField} :
      pieces ≠ [] → (∀ piece ∈ pieces, ',' ∉ piece) → [','].intercalate pieces = s.toList →
      List.Forall₂ Text.Trimmed pieces names →
      List.Forall₂ Spelled (names.filter (· ≠ [])) fs → Lists (.string s) (fs.map ofField)
  /-- The texts in an array without the blanks around them. -/
  | array {items : List String} {names : List (List Char)} {fs : List SortField} :
      List.Forall₂ Text.Trimmed (items.map String.toList) names → List.Forall₂ Spelled names fs →
      Lists (.array (items.map .string)) (fs.map ofField)
  /-- The members of an object. -/
  | object (members : List Entry) : Lists (.object members) members

/-- A text has one reading as a field: what stands behind one minus sign, or the text itself. -/
theorem spelled_iff (cs : List Char) (f : SortField) : Spelled cs f ↔ signed cs = f := by
  constructor
  · intro h
    cases h with
    | desc cs => rfl
    | asc h =>
        unfold signed
        split
        · exact absurd rfl h
        · rfl
  · rintro rfl
    unfold signed
    split
    · exact .desc _
    · next h =>
        refine .asc fun hhead => ?_
        obtain ⟨ds, hds⟩ := List.head?_eq_some_iff.mp hhead
        exact h ds hds

/-- A list is related to that of the images if each element is related to its image only. -/
theorem forall₂_iff_map_eq {α β : Type} {R : α → β → Prop} {g : α → β}
    (h : ∀ x y, R x y ↔ g x = y) {xs : List α} {ys : List β} :
    List.Forall₂ R xs ys ↔ xs.map g = ys := by
  rw [← List.forall₂_eq_eq_eq, List.forall₂_map_left_iff]
  exact ⟨.imp fun x y => (h x y).mp, .imp fun x y => (h x y).mpr⟩

theorem forall₂_trimmed_iff {pieces names : List (List Char)} :
    List.Forall₂ Text.Trimmed pieces names ↔ pieces.map Text.trim = names :=
  forall₂_iff_map_eq @Text.trimmed_iff

theorem forall₂_spelled_iff {names : List (List Char)} {fs : List SortField} :
    List.Forall₂ Spelled names fs ↔ names.map signed = fs :=
  forall₂_iff_map_eq spelled_iff

/-- The items of an array can be read if they are texts. The first one that is none is what the sort
is refused for. -/
theorem exists_names_of_mapM {items : List Value} {fs : List SortField}
    (h : items.mapM ofItem = .ok fs) : ∃ names : List String, items = names.map .string ∧
      fs = names.map fun name => signed (Text.trim name.toList) := by
  rw [mapM_eq_ok_iff] at h
  induction h with
  | nil => exact ⟨[], rfl, rfl⟩
  | @cons item _ _ _ hi _ ih =>
      obtain ⟨names, rfl, rfl⟩ := ih
      cases item with
      | string s => cases hi; exact ⟨s :: names, rfl, rfl⟩
      | _ => cases hi

theorem mapM_ofItem (items : List String) :
    (items.map Value.string).mapM ofItem
      = .ok (((items.map String.toList).map Text.trim).map signed) := by
  simp only [mapM_eq_ok_iff, List.forall₂_map_left_iff, List.forall₂_map_right_iff,
    List.forall₂_same]
  exact fun _ _ => rfl

/-- The entries of a sort are those that are read, in each of the three forms: a text with commas,
an array of texts, an object. -/
theorem lists_iff {v : Value} {es : List Entry} : Lists v es ↔ entries v = .ok es := by
  constructor
  · intro h
    cases h with
    | text hne hpieces hs hnames hfs =>
        rw [entries, ofText, Text.splitOn_eq_iff.mpr ⟨hne, hpieces, hs⟩,
          forall₂_trimmed_iff.mp hnames, forall₂_spelled_iff.mp hfs]
    | array hnames hfs =>
        rw [entries, mapM_ofItem, forall₂_trimmed_iff.mp hnames, forall₂_spelled_iff.mp hfs]
        rfl
    | object members => rfl
  · intro h
    cases v with
    | string s =>
        cases h
        -- What the text is split into are pieces without commas that give it back.
        obtain ⟨hne, hpieces, hs⟩ := Text.splitOn_eq_iff.mp (rfl : Text.splitOn ',' s.toList = _)
        exact .text hne hpieces hs (forall₂_trimmed_iff.mpr rfl) (forall₂_spelled_iff.mpr rfl)
    | array items =>
        obtain ⟨fs, hfs, he⟩ := bind_eq_ok_iff.mp h
        obtain ⟨names, rfl, rfl⟩ := exists_names_of_mapM hfs
        cases he
        refine .array (forall₂_trimmed_iff.mpr rfl) (forall₂_spelled_iff.mpr ?_)
        simp
    | object members => cases h; exact .object es
    | _ => cases h

/-- `Named v fs` says that the sort `v` of a request names the fields `fs`: each entry that it lists
is a field with its direction. -/
def Named (v : Value) (fs : List SortField) : Prop :=
  Lists v (fs.map ofField)

/-- `Asked r fs` says that `fs` are the fields of the request's sort, or of the schema's if it has
none. -/
def Asked (r : Request) (fs : List SortField) : Prop :=
  match r.param? parameter with
  | some v => Named v fs
  | none   => fs = r.schema.sort.default

/-- A field and its direction are told by the entry they are listed as. -/
theorem ofField_injective : Function.Injective ofField := by
  rintro ⟨field, order⟩ ⟨field', order'⟩ h
  obtain ⟨rfl, hd⟩ := Prod.mk.inj h
  have hn : some order = some order' := by
    rw [← Direction.ofName?_name order, ← Direction.ofName?_name order', Value.string.inj hd]
  cases hn
  rfl

theorem eq_of_map_ofField_eq {fs gs : List SortField} (h : fs.map ofField = gs.map ofField) :
    fs = gs :=
  List.map_injective_iff.mpr ofField_injective h

theorem map_fst_map_ofField (fs : List SortField) :
    (fs.map ofField).map Prod.fst = fs.map (·.field) := by
  rw [List.map_map]
  rfl

theorem Named.unique {v : Value} {fs gs : List SortField} (h : Named v fs) (h' : Named v gs) :
    fs = gs :=
  eq_of_map_ofField_eq (Except.ok.inj ((lists_iff.mp h).symm.trans (lists_iff.mp h')))

theorem Asked.unique {r : Request} {fs gs : List SortField} (h : Asked r fs) (h' : Asked r gs) :
    fs = gs := by
  unfold Asked at h h'
  split at h
  · next v hv => rw [hv] at h'; exact Named.unique h h'
  · next hn => rw [hn] at h'; exact h.trans h'.symm

/-! ### Validating -/

/-- An entry passes if its field has a name, may be sorted by and has not come before, and the
backend takes its direction; then the next ones are checked. -/
theorem checkEntries_cons_eq_ok_iff {v : Validator} {fields : Fields} {seen : List String}
    {e : Entry} {es : List Entry} :
    checkEntries v fields seen (e :: es) = .ok () ↔
      (e.1 ≠ "" ∧ fields.Allows e.1 ∧ e.1 ∉ seen ∧ v.check .sort e.1 e.2 = .ok ()) ∧
        checkEntries v fields (e.1 :: seen) es = .ok () := by
  obtain ⟨field, order⟩ := e
  rw [checkEntries]
  by_cases hfield : field = ""
  · simp [hfield, throw, throwThe, MonadExceptOf.throw, bind, Except.bind]
  rw [← Fields.permits_iff]
  by_cases hperm : fields.permits field = true
  · by_cases hseen : field ∈ seen
    · simp [hfield, hperm, hseen, throw, throwThe, MonadExceptOf.throw, bind, Except.bind]
    · simp [hfield, hperm, hseen, check_bind_eq_ok_iff]
  · simp [hfield, hperm, throw, throwThe, MonadExceptOf.throw, bind, Except.bind]

/-- Entries pass if each names a permitted field that is not among those before, and gives a
direction for it. -/
theorem checkEntries_eq_ok_iff {v : Validator} {fields : Fields} {seen : List String}
    {es : List Entry} :
    checkEntries v fields seen es = .ok () ↔
      (∀ e ∈ es, e.1 ≠ "" ∧ fields.Allows e.1 ∧ e.1 ∉ seen ∧
        v.check .sort e.1 e.2 = .ok ()) ∧ (es.map Prod.fst).Nodup := by
  induction es generalizing seen with
  | nil => simp [checkEntries]
  | cons e es ih =>
      -- The fields seen before grow by one, which is what keeps the others from being equal to it.
      rw [checkEntries_cons_eq_ok_iff, ih, List.forall_mem_cons, List.map_cons, List.nodup_cons]
      constructor
      · rintro ⟨he, hes, hn⟩
        refine ⟨⟨he, fun x hx => ?_⟩, fun hmem => ?_, hn⟩
        · obtain ⟨hne, hperm, hseen, hc⟩ := hes x hx
          exact ⟨hne, hperm, fun h => hseen (List.mem_cons_of_mem _ h), hc⟩
        · obtain ⟨x, hx, hxe⟩ := List.mem_map.mp hmem
          exact (hes x hx).2.2.1 (hxe ▸ List.mem_cons_self)
      · rintro ⟨⟨he, hes⟩, hmem, hn⟩
        refine ⟨he, fun x hx => ?_, hn⟩
        obtain ⟨hne, hperm, hseen, hc⟩ := hes x hx
        refine ⟨hne, hperm, fun h => ?_, hc⟩
        rcases List.mem_cons.mp h with h | h
        · exact hmem (List.mem_map.mpr ⟨x, hx, h⟩)
        · exact hseen h

theorem exists_direction_of_check {v : Validator} {field : String} {order : Value}
    (h : v.check .sort field order = .ok ()) : ∃ d : Direction, order = .string d.name := by
  obtain ⟨-, ha⟩ := Validator.check_eq_ok_iff.mp h
  cases order with
  | string s =>
      obtain ⟨d, hd⟩ := Option.isSome_iff_exists.mp ha
      exact ⟨d, by rw [Direction.name_of_ofName? hd]⟩
  | _ => cases ha

theorem exists_map_ofField {v : Validator} {es : List Entry}
    (h : ∀ e ∈ es, v.check .sort e.1 e.2 = .ok ()) :
    ∃ fs : List SortField, es = fs.map ofField := by
  induction es with
  | nil => exact ⟨[], rfl⟩
  | cons e es ih =>
      obtain ⟨he, hes⟩ := List.forall_mem_cons.mp h
      obtain ⟨d, hd⟩ := exists_direction_of_check he
      obtain ⟨fs, rfl⟩ := ih hes
      exact ⟨⟨e.1, d⟩ :: fs, by rw [List.map_cons, ofField, ← hd]⟩

/-- **A request's sort that passes** names fields that are permitted, each once, and lists them. So
nothing is lost in the listing by name. -/
theorem flat_of_validate {v : Validator} {r : Request} {value : Value}
    (hp : r.param? parameter = some value) (h : validate v r = .ok ()) :
    ∃ fs, Named value fs ∧ flat r = fs.map ofField ∧
      ∀ f ∈ fs, f.field ≠ "" ∧ r.schema.sort.fields.Allows f.field := by
  rw [validate, hp] at h
  obtain ⟨es, he, h⟩ := bind_eq_ok_iff.mp h
  obtain ⟨hes, hn⟩ := checkEntries_eq_ok_iff.mp h
  -- Names are distinct and directions real, so collecting the entries by name loses nothing.
  obtain ⟨fs, rfl⟩ := exists_map_ofField fun e hmem => (hes e hmem).2.2.2
  refine ⟨fs, lists_iff.mpr he, ?_, fun f hf => ?_⟩
  · rw [flat, hp]
    simp only [he]
    exact Dictionary.ofEntries_of_nodup hn
  · obtain ⟨hne, hperm, -⟩ := hes _ (List.mem_map_of_mem hf)
    exact ⟨hne, hperm⟩

/-- Whatever is listed for the schema's sort is one of its fields. -/
theorem mem_flat_default {r : Request} (hp : r.param? parameter = none) {x : String × Value}
    (hx : x ∈ flat r) : ∃ f ∈ r.schema.sort.default, x = ofField f := by
  rw [flat, hp] at hx
  obtain ⟨f, hf, rfl⟩ := List.mem_map.mp (Dictionary.mem_ofEntries hx)
  exact ⟨f, hf, rfl⟩

theorem flat_default {r : Request} (hp : r.param? parameter = none)
    (hn : (r.schema.sort.default.map (·.field)).Nodup) :
    flat r = r.schema.sort.default.map ofField := by
  rw [flat, hp]
  refine Dictionary.ofEntries_of_nodup ?_
  rwa [map_fst_map_ofField]

/-- A sort that passes is listed as fields with directions, and so is that of the schema, where a
field that comes again is merged. -/
theorem exists_fields_of_validate {v : Validator} {r : Request} (h : validate v r = .ok ()) :
    ∃ fs : List SortField, flat r = fs.map ofField := by
  rcases hp : r.param? parameter with _ | value
  · have hmem : flat r ∈ Set.range (List.map ofField) := by
      rw [Set.range_list_map]
      intro x hx
      obtain ⟨f, -, rfl⟩ := mem_flat_default hp hx
      exact ⟨f, rfl⟩
    obtain ⟨fs, hfs⟩ := hmem
    exact ⟨fs, hfs.symm⟩
  · obtain ⟨fs, -, hflat, -⟩ := flat_of_validate hp h
    exact ⟨fs, hflat⟩

/-! ### Applying -/

/-- `key f` is the key of an ordering by `f`. -/
def key (f : SortField) : SortKey := ⟨.column f.field, f.order⟩

/-- A direction is read from its name only. -/
theorem direction?_eq_some_iff {order : Value} {d : Direction} :
    direction? order = some d ↔ order = .string d.name := by
  constructor
  · intro h
    cases order with
    | string s => rw [Direction.name_of_ofName? h]
    | _ => cases h
  · rintro rfl
    exact Direction.ofName?_name d

/-- A list of fields is applied field by field, with none refused for its direction. -/
theorem apply_map_ofField {β : Type} (b : Backend β) (fs : List SortField) :
    apply b (fs.map ofField) = fs.forM b.sort := by
  rw [apply, List.forM_eq_forM, List.forM_map]
  simp only [ofField, direction?, Direction.ofName?_name]
  rfl

/-- A sort that passes is never refused over SQL. -/
theorem fst_apply_flat (ops : List Operator) {v : Validator} {r : Request}
    (h : validate v r = .ok ()) (q : Select) :
    ((apply (.sqlWith ops) (flat r)).run q).1 = .ok () := by
  obtain ⟨fs, hfs⟩ := exists_fields_of_validate h
  rw [hfs, apply_map_ofField, Build.run_forM_eq_ok (Backend.run_sort_sqlWith ops)]

/-- Applying a list adds, in its order, a key for each field in it. Nothing but a text that is no
direction could be refused, and there is none. -/
theorem apply_ok {v : Validator} {params : Dictionary Value} {q q' : Select}
    (h : (apply (Backend.ofDialect v) params).run q = (.ok (), q')) :
    ∃ fs : List SortField, params = fs.map ofField ∧
      q' = { q with orderBy := q.orderBy ++ fs.map key } := by
  have hrun : ∃ fs, List.Forall₂ (fun x f => x = ofField f) params fs ∧
      q' = fs.foldl (fun q f => q.orderedBy (key f)) q := by
    refine Build.run_forM_ok (fun x q q' hx => ?_) h
    split at hx
    · next d hd =>
        obtain ⟨-, rfl⟩ := Backend.run_sort_ok_iff.mp hx
        exact ⟨⟨x.1, d⟩, by rw [ofField, ← direction?_eq_some_iff.mp hd], rfl⟩
    · exact absurd hx Build.run_throw_ne_ok
  obtain ⟨fs, hfs, rfl⟩ := hrun
  refine ⟨fs, ?_, by rw [← Select.foldl_orderedBy, List.foldl_map]⟩
  rw [← List.forall₂_map_right_iff, List.forall₂_eq_eq_eq] at hfs
  exact hfs

/-- **A run over SQL that succeeds** adds a key for each field that is listed, unless sorting is
switched off. -/
theorem run_ok {v : Validator} {r : Request} {q q' : Select}
    (h : (Facet.sort.run (Backend.ofDialect v) r).run q = (.ok (), q')) :
    r.schema.sort.isEnabled = false ∧ q' = q ∨
    r.schema.sort.isEnabled = true ∧ validate v r = .ok () ∧
      ∃ fs : List SortField, flat r = fs.map ofField ∧
        q' = { q with orderBy := q.orderBy ++ fs.map key } := by
  rcases Facet.run_ok_iff.mp h with ⟨hoff, rfl⟩ | ⟨hon, hc, ha⟩
  · exact .inl ⟨hoff, rfl⟩
  · exact .inr ⟨hon, hc, apply_ok ha⟩

end FacetQuery.Sort
