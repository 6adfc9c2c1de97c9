import FacetQuery.Json.Value

/-!
# Json — The numbers of a value

* `Value.numbers`: the numbers in a value, at any depth, and `Value.mapNumbers`, which changes them.
* `Value.mapNumbers_eq_self_iff`: a value stays what it is just in case each of its numbers does.
-/

namespace FacetQuery.Json.Value

mutual

/-- `numbers v` are the numbers in `v`, at any depth. -/
def numbers : Value → List Number
  | .number n       => [n]
  | .array items    => numbersEach items
  | .object members => numbersUnder members
  | .null           => []
  | .bool _         => []
  | .string _       => []

/-- `numbersEach vs` are the numbers in the items of a list. -/
def numbersEach : List Value → List Number
  | []      => []
  | v :: vs => numbers v ++ numbersEach vs

/-- `numbersUnder ms` are the numbers in the members of an object. -/
def numbersUnder : Dictionary Value → List Number
  | []           => []
  | (_, v) :: ms => numbers v ++ numbersUnder ms

end

mutual

/-- `mapNumbers f v` is `v` with all its numbers changed by `f`. -/
def mapNumbers (f : Number → Number) : Value → Value
  | .number n       => .number (f n)
  | .array items    => .array (mapNumbersEach f items)
  | .object members => .object (mapNumbersUnder f members)
  | .null           => .null
  | .bool b         => .bool b
  | .string s       => .string s

/-- `mapNumbersEach f vs` changes the numbers of all items of a list. -/
def mapNumbersEach (f : Number → Number) : List Value → List Value
  | []      => []
  | v :: vs => v.mapNumbers f :: mapNumbersEach f vs

/-- `mapNumbersUnder f ms` changes the numbers of all members of an object. -/
def mapNumbersUnder (f : Number → Number) : Dictionary Value → Dictionary Value
  | []           => []
  | (k, v) :: ms => (k, v.mapNumbers f) :: mapNumbersUnder f ms

end

variable (f : Number → Number)

theorem mapNumbersEach_eq_map (vs : List Value) : mapNumbersEach f vs = vs.map (mapNumbers f) := by
  induction vs with
  | nil => rfl
  | cons v vs ih => rw [mapNumbersEach, ih, List.map_cons]

theorem mapNumbersUnder_eq_map (ms : Dictionary Value) :
    mapNumbersUnder f ms = ms.map fun m => (m.1, m.2.mapNumbers f) := by
  induction ms with
  | nil => rfl
  | cons m ms ih => rw [mapNumbersUnder, ih, List.map_cons]

@[simp] theorem mapNumbers_array (items : List Value) :
    (array items).mapNumbers f = .array (items.map (mapNumbers f)) := by
  rw [mapNumbers, mapNumbersEach_eq_map]

@[simp] theorem mapNumbers_object (members : Dictionary Value) :
    (object members).mapNumbers f = .object (members.map fun m => (m.1, m.2.mapNumbers f)) := by
  rw [mapNumbers, mapNumbersUnder_eq_map]

mutual

/-- **A value stays what it is** just in case each of its numbers does. The recursion is on the
value, with the items of a list and the members of an object. -/
theorem mapNumbers_eq_self_iff {f : Number → Number} :
    ∀ v : Value, v.mapNumbers f = v ↔ ∀ n ∈ v.numbers, f n = n
  | .number n => by simp [Value.mapNumbers, numbers]
  | .array items => by
      rw [Value.mapNumbers, numbers, array.injEq]
      exact mapNumbersEach_eq_self_iff items
  | .object members => by
      rw [Value.mapNumbers, numbers, object.injEq]
      exact mapNumbersUnder_eq_self_iff members
  | .null => by simp [Value.mapNumbers, numbers]
  | .bool _ => by simp [Value.mapNumbers, numbers]
  | .string _ => by simp [Value.mapNumbers, numbers]

theorem mapNumbersEach_eq_self_iff {f : Number → Number} :
    ∀ vs : List Value, mapNumbersEach f vs = vs ↔ ∀ n ∈ numbersEach vs, f n = n
  | [] => by simp [mapNumbersEach, numbersEach]
  | v :: vs => by
      rw [mapNumbersEach, numbersEach, List.cons.injEq, List.forall_mem_append]
      exact and_congr (mapNumbers_eq_self_iff v) (mapNumbersEach_eq_self_iff vs)

theorem mapNumbersUnder_eq_self_iff {f : Number → Number} :
    ∀ ms : Dictionary Value, mapNumbersUnder f ms = ms ↔ ∀ n ∈ numbersUnder ms, f n = n
  | [] => by simp [mapNumbersUnder, numbersUnder]
  | (k, v) :: ms => by
      rw [mapNumbersUnder, numbersUnder, List.cons.injEq, List.forall_mem_append, Prod.mk.injEq]
      exact and_congr ((and_iff_right rfl).trans (mapNumbers_eq_self_iff v))
        (mapNumbersUnder_eq_self_iff ms)

end

end FacetQuery.Json.Value
