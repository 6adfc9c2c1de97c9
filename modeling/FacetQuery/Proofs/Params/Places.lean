import FacetQuery.Proofs.Params.Leaves
import Mathlib.Tactic.Abel

/-!
# Params — Places in a tree

A path goes down a tree through members of objects.  What it passes stands beside the place where it
arrives, and stays the same whatever is put there.

* `plug fs v`: the tree `v` at the place inside of the objects `fs`.
* `Leads path tree fs rest old`: `path` leads to a place where `old` stands, with `rest` left of it.
* `merge_plug`: a value that is put into a tree goes to such a place.
* `mem_leaves_plug`, `exists_values_plug`: the leaves of the whole tree, from those at the place.
-/

namespace FacetQuery.Params

open Json

/-- The place of a member in an object.  No member in front of it has its name, so that the name
leads there. -/
structure Frame where
  before : Dictionary Value
  name : String
  after : Dictionary Value
  named : name ≠ ""
  first : name ∉ Dictionary.keys before

/-- `plug fs v` is `v` inside of objects, the outermost of them first. -/
def plug : List Frame → Value → Value
  | [],      v => v
  | f :: fs, v => .object (f.before ++ (f.name, plug fs v) :: f.after)

/-- `names fs` is the path to the place inside of all of them. -/
def names (fs : List Frame) : List String := fs.map (·.name)

/-- `Leads path tree fs rest old` says that `path` leads to `old` inside of `fs`, where `rest` of it
is left. -/
structure Leads (path : List String) (tree : Value) (fs : List Frame) (rest : List String)
    (old : Value) : Prop where
  path_eq : path = names fs ++ rest
  tree_eq : tree = plug fs old

/-- `under path l` is the leaf `l` at the end of `path`. -/
def under (path : List String) (l : Leaf) : Leaf := (path ++ l.1, l.2)

variable {path rest : List String} {tree old : Value} {fs : List Frame}

theorem leads_here (path : List String) (tree : Value) : Leads path tree [] path tree :=
  ⟨rfl, rfl⟩

theorem leads_plug (fs : List Frame) (rest : List String) (old : Value) :
    Leads (names fs ++ rest) (plug fs old) fs rest old :=
  ⟨rfl, rfl⟩

/-- The name of a member leads to it. -/
theorem Leads.member {name : String} {members : Dictionary Value} (hname : name ≠ "")
    (hfind : Dictionary.find? name members = some tree) (h : Leads path tree fs rest old) :
    ∃ f : Frame, Leads (name :: path) (.object members) (f :: fs) rest old := by
  obtain ⟨before, after, rfl, hfirst⟩ := Dictionary.find?_eq_some_iff.mp hfind
  obtain ⟨rfl, rfl⟩ := h
  exact ⟨⟨before, name, after, hname, hfirst⟩, rfl, rfl⟩

theorem find?_frame (f : Frame) (v : Value) :
    Dictionary.find? f.name (f.before ++ (f.name, v) :: f.after) = some v :=
  Dictionary.find?_eq_some_iff.mpr ⟨f.before, f.after, rfl, f.first⟩

/-- A value that is put into a tree goes inside as far as its path names what is there. -/
theorem merge_plug (fs : List Frame) (rest : List String) (v old : Value) :
    merge (names fs ++ rest) v (plug fs old) = plug fs (merge rest v old) := by
  induction fs with
  | nil => rfl
  | cons f fs ih =>
      -- No member in front has this name, so the update is one of what is plugged in.
      rw [names, List.map_cons, List.cons_append, plug, merge, if_neg f.named,
        Dictionary.update_append_cons f.first]
      exact congrArg (fun t => Value.object (f.before ++ (f.name, t) :: f.after)) ih

/-- A leaf at the place is a leaf of the whole tree, under the path to the place. -/
theorem mem_leaves_plug (fs : List Frame) {v : Value} {l : Leaf} (h : l ∈ v.leaves) :
    under (names fs) l ∈ (plug fs v).leaves := by
  induction fs with
  | nil => exact h
  | cons f fs ih =>
      rw [plug, Value.leaves_object, List.flatMap_append, List.flatMap_cons]
      exact List.mem_append_right _ (List.mem_append_left _ (List.mem_map_of_mem ih))

/-- What stands beside the place counts the same, whatever is put there. -/
theorem exists_values_plug (fs : List Frame) :
    ∃ beside : Multiset Value, ∀ v, (plug fs v).values = v.values + beside := by
  induction fs with
  | nil => exact ⟨0, fun v => (add_zero v.values).symm⟩
  | cons f fs ih =>
      obtain ⟨beside, ih⟩ := ih
      refine ⟨beside + (f.before.map fun m => m.2.values).sum
        + (f.after.map fun m => m.2.values).sum, fun v => ?_⟩
      rw [plug, Value.values_object, List.map_append, List.sum_append, List.map_cons, List.sum_cons,
        ih]
      abel

end FacetQuery.Params
