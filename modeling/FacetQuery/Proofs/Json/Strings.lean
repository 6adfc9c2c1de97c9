import FacetQuery.Operation
import FacetQuery.Proofs.WellFormed

/-!
# Json — Changing the strings of a value

`mapStrings f` changes every string in a value, at any depth, and leaves the keys of objects alone.

* `Value.WellFormed.mapStrings`: no key is repeated by it.
* `ValueShape.admits_mapStrings`: no shape that a filter takes depends on what strings say.
-/

namespace FacetQuery

open Json

namespace Json.Value

mutual

/-- `mapStrings f v` is `v` with all its strings changed by `f`. -/
def mapStrings (f : String → String) : Value → Value
  | .string s       => .string (f s)
  | .array items    => .array (mapStringsEach f items)
  | .object members => .object (mapStringsUnder f members)
  | .null           => .null
  | .bool b         => .bool b
  | .number n       => .number n

/-- `mapStringsEach f vs` changes the strings of all items of a list. -/
def mapStringsEach (f : String → String) : List Value → List Value
  | []      => []
  | v :: vs => v.mapStrings f :: mapStringsEach f vs

/-- `mapStringsUnder f ms` changes the strings of all members of an object. -/
def mapStringsUnder (f : String → String) : Dictionary Value → Dictionary Value
  | []           => []
  | (k, v) :: ms => (k, v.mapStrings f) :: mapStringsUnder f ms

end

variable (f : String → String)

theorem mapStringsEach_eq_map (vs : List Value) : mapStringsEach f vs = vs.map (mapStrings f) := by
  induction vs with
  | nil => rfl
  | cons v vs ih => rw [mapStringsEach, ih, List.map_cons]

theorem mapStringsUnder_eq_map (ms : Dictionary Value) :
    mapStringsUnder f ms = ms.map fun m => (m.1, m.2.mapStrings f) := by
  induction ms with
  | nil => rfl
  | cons m ms ih => rw [mapStringsUnder, ih, List.map_cons]

@[simp] theorem mapStrings_array (items : List Value) :
    (array items).mapStrings f = .array (items.map (mapStrings f)) := by
  rw [mapStrings, mapStringsEach_eq_map]

@[simp] theorem mapStrings_object (members : Dictionary Value) :
    (object members).mapStrings f = .object (members.map fun m => (m.1, m.2.mapStrings f)) := by
  rw [mapStrings, mapStringsUnder_eq_map]

/-- The keys of an object are not changed, and so none is repeated. -/
theorem WellFormed.mapStrings {v : Value} (h : v.WellFormed) : (v.mapStrings f).WellFormed := by
  induction h with
  | array _ ih =>
      rw [mapStrings_array]
      exact .array (List.forall_mem_map.mpr ih)
  | object hk _ ih =>
      rw [mapStrings_object]
      refine .object ?_ (List.forall_mem_map.mpr ih)
      rw [Dictionary.keys, List.map_map]
      exact hk
  | _ => constructor

end Json.Value

/-- What a filter's operator asks of a value is not asked of its strings, only of its kind. -/
theorem ValueShape.admits_mapStrings (f : String → String) (op : Operator) (v : Value) :
    (ofOperation (.filter op)).admits (v.mapStrings f) = (ofOperation (.filter op)).admits v := by
  rw [ofOperation]
  cases op.cls <;> cases v <;> rfl

end FacetQuery
