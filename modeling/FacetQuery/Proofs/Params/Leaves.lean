import FacetQuery.Proofs.Params.Tree
import Mathlib.Algebra.BigOperators.Group.List.Basic
import Mathlib.Algebra.Order.Group.Multiset

/-!
# Params — The leaves of any tree

A tree of parameters may hold arrays within arrays, objects within arrays, and arrays and objects
without anything in them.  Its leaves are what is neither, at any depth.

* `Value.leaves v`: the leaves of a tree with their paths, in which an item is an empty segment.
* `Value.values v`: the leaves without their paths, each as often as it comes; those of an array or
  an object are the sum of those in it (`Value.values_array`, `Value.values_object`).
* `leaves_build`: a tree that is built along a path has one leaf, at the end of this path.
-/

namespace FacetQuery

open Json

namespace Json.Value

/-- `IsLeaf v` says that `v` is neither an array nor an object. -/
def IsLeaf : Value → Prop
  | .array _ | .object _ => False
  | _                    => True

mutual

/-- `leaves v` are the leaves of `v` from left to right, each with its path. -/
def leaves : Value → List Params.Leaf
  | .array items    => leavesOfItems items
  | .object members => leavesOfMembers members
  | v               => [([], v)]

/-- `leavesOfItems vs` are the leaves of all items. -/
def leavesOfItems : List Value → List Params.Leaf
  | []      => []
  | v :: vs => v.leaves.map (Params.below "") ++ leavesOfItems vs

/-- `leavesOfMembers ms` are the leaves of all members. -/
def leavesOfMembers : List (String × Value) → List Params.Leaf
  | []           => []
  | (k, v) :: ms => v.leaves.map (Params.below k) ++ leavesOfMembers ms

end

/-- `values v` are the leaves of `v` without their paths. -/
def values (v : Value) : Multiset Value := v.leaves.map Prod.snd

/-- The leaves of an array are those of its items, each below an empty segment. -/
theorem leaves_array (items : List Value) :
    (array items).leaves = items.flatMap fun v => v.leaves.map (Params.below "") := by
  rw [leaves]
  induction items with
  | nil => rfl
  | cons v vs ih => rw [leavesOfItems, ih, List.flatMap_cons]

/-- The leaves of an object are those of its members, each below its key. -/
theorem leaves_object (members : Dictionary Value) :
    (object members).leaves = members.flatMap fun m => m.2.leaves.map (Params.below m.1) := by
  rw [leaves]
  induction members with
  | nil => rfl
  | cons m ms ih => rw [leavesOfMembers, ih, List.flatMap_cons]

/-- As values, the leaves of an array are the sum of those in its items. -/
theorem values_array (items : List Value) : (array items).values = (items.map values).sum := by
  rw [values, leaves_array]
  induction items with
  | nil => rfl
  | cons v vs ih =>
      rw [List.flatMap_cons, List.map_append, ← Multiset.coe_add, ih, List.map_map, List.map_cons,
        List.sum_cons]
      rfl

/-- Those of an object are the sum of those in its members. -/
theorem values_object (members : Dictionary Value) :
    (object members).values = (members.map fun m => m.2.values).sum := by
  rw [values, leaves_object]
  induction members with
  | nil => rfl
  | cons m ms ih =>
      rw [List.flatMap_cons, List.map_append, ← Multiset.coe_add, ih, List.map_map, List.map_cons,
        List.sum_cons]
      rfl

theorem values_array_concat (items : List Value) (v : Value) :
    (array (items ++ [v])).values = v.values + (array items).values := by
  rw [values_array, values_array, List.map_append, List.sum_append, List.map_cons, List.map_nil,
    List.sum_singleton, Multiset.add_comm]

theorem values_object_concat (members : Dictionary Value) (m : String × Value) :
    (object (members ++ [m])).values = m.2.values + (object members).values := by
  rw [values_object, values_object, List.map_append, List.sum_append, List.map_cons, List.map_nil,
    List.sum_singleton, Multiset.add_comm]

theorem IsLeaf.leaves {v : Value} (h : v.IsLeaf) : v.leaves = [([], v)] := by
  cases v with
  | array _  => exact h.elim
  | object _ => exact h.elim
  | _ => rw [Value.leaves]; all_goals exact nofun

theorem IsLeaf.values {v : Value} (h : v.IsLeaf) : v.values = {v} := by
  rw [Value.values, h.leaves]
  rfl

end Json.Value

namespace Params

theorem isLeaf_scalar (cs : List Char) : (scalar cs).IsLeaf := by
  unfold scalar
  repeat' split
  all_goals trivial

/-- A tree that is built along a path has one leaf, at its end. -/
theorem leaves_build {v : Value} (hv : v.IsLeaf) (path : List String) :
    (build path v).leaves = [(path, v)] := by
  induction path with
  | nil => exact hv.leaves
  | cons segment path ih =>
      rw [build]
      split
      · next h => subst h; simp [Value.leaves_array, ih, below]
      · simp [Value.leaves_object, ih, below]

/-- A tree that is built along a path has one value. The path may hold empty segments, which make
arrays. -/
theorem values_build {v : Value} (hv : v.IsLeaf) (path : List String) :
    (build path v).values = {v} := by
  rw [Value.values, leaves_build hv]
  rfl

end Params

end FacetQuery
