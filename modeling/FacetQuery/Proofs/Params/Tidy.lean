import FacetQuery.Proofs.Params.Key
import FacetQuery.Proofs.Params.Roots
import FacetQuery.Proofs.Params.Typing

/-!
# Params — What no query string can say

There are values that no query string stands for: an object or an array without anything in it, a
member without a name, a number out of range.  Each pair puts one scalar into the tree, and all that
is made on the way to it is made to hold it.

* `Tidy v`: a value without any of these in it.
* `tidy_scalar`, `tidy_build`, `tidy_merge`: what a pair puts into a tree is tidy, and leaves a tidy
  tree tidy.
* `tidy_of_mem_read`: so is every parameter of a query string; `read_eq_nil_iff`: there are none
  only if there is no pair.
-/

namespace FacetQuery.Params

open Json

/-- `Tidy v` says that at no depth in `v` there is an empty object, an empty array, an empty key, a
whole number that does not fit 64 bits with a sign, or a double that is not finite. -/
inductive Tidy : Value → Prop where
  | null : Tidy .null
  | bool (b : Bool) : Tidy (.bool b)
  | whole {i : Integer} : fitsInt64 i.val = true → Tidy (.number (.whole i))
  | real {x : Binary64} (hfinite : x.isFinite = true) : Tidy (.number (.real x hfinite))
  | string (s : String) : Tidy (.string s)
  | array {items : List Value} : items ≠ [] → (∀ v ∈ items, Tidy v) → Tidy (.array items)
  | object {members : Dictionary Value} : members ≠ [] → (∀ m ∈ members, m.1 ≠ "") →
      (∀ m ∈ members, Tidy m.2) → Tidy (.object members)

/-! ### One pair -/

/-- What a text is typed as is tidy: numbers are in range as soon as they are taken for numbers. -/
theorem tidy_scalar (t : List Char) : Tidy (scalar t) := by
  generalize hv : scalar t = v
  cases hv ▸ typed_scalar t with
  | null           => exact .null
  | yes | no       => exact .bool _
  | whole _ hfits  => exact .whole hfits
  | real hfinite   => exact .real hfinite
  | string         => exact .string _

/-- What is built along a path to hold a value is tidy, as the value is. An empty segment makes an
array, so no key is empty. -/
theorem tidy_build {v : Value} (hv : Tidy v) (path : List String) : Tidy (build path v) := by
  induction path with
  | nil => exact hv
  | cons segment path ih =>
      rw [build]
      split
      · exact .array (List.cons_ne_nil _ _) (List.forall_mem_singleton.mpr ih)
      · next hsegment =>
          exact .object (List.cons_ne_nil _ _) (List.forall_mem_singleton.mpr hsegment)
            (List.forall_mem_singleton.mpr ih)

/-- A value that is put into a tree gets a name, or becomes an item of an array. -/
theorem tidy_merge {v : Value} (hv : Tidy v) (path : List String) {tree : Value}
    (htree : Tidy tree) : Tidy (merge path v tree) := by
  induction path generalizing tree with
  | nil =>
      have hpair : Tidy (.array [tree, v]) :=
        .array (List.cons_ne_nil _ _)
          (List.forall_mem_cons.mpr ⟨htree, List.forall_mem_singleton.mpr hv⟩)
      cases htree with
      | array hne hitems =>
          refine .array (List.append_ne_nil_of_left_ne_nil hne _) fun w hw => ?_
          rcases List.mem_append.mp hw with hw | hw
          · exact hitems w hw
          · exact List.mem_singleton.mp hw ▸ hv
      | null | bool | whole | real | string | object => exact hpair
  | cons segment path ih =>
      -- Where the tree is of another kind it gives way to a new one.
      have hnew := tidy_build hv (segment :: path)
      cases htree with
      | array hne hitems =>
          rw [merge]
          split
          · refine .array (List.append_ne_nil_of_left_ne_nil hne _) fun w hw => ?_
            rcases List.mem_append.mp hw with hw | hw
            · exact hitems w hw
            · exact List.mem_singleton.mp hw ▸ tidy_build hv path
          · exact hnew
      | object hne hkeys hvalues =>
          rw [merge]
          split
          · exact hnew
          · next hsegment =>
              exact .object (Dictionary.update_ne_nil _ _ _ _)
                (Dictionary.forall_mem_update (P := fun k _ => k ≠ "") hkeys hsegment fun _ => id)
                (Dictionary.forall_update hvalues (tidy_build hv path) fun _ => ih)
      | null | bool | whole | real | string => exact hnew

/-! ### Query strings -/

/-- A pair that has a key has a root. -/
theorem Pair.root_ne_empty {p : Pair} (h : p.key ≠ []) : p.root ≠ "" := by
  intro hroot
  have hnil : (Key.read p.key).root = [] := by
    rw [← String.toList_ofList (l := (Key.read p.key).root)]
    exact String.toList_eq_nil_iff.mpr hroot
  exact Key.root_read_ne_nil h hnil

/-- Pairs with a key, put one after another, leave all parameters tidy and with a name. -/
theorem tidy_foldl_assignTo {ps : List Pair} (hps : ∀ p ∈ ps, p.key ≠ [])
    {params : Dictionary Value} (h : ∀ m ∈ params, m.1 ≠ "" ∧ Tidy m.2) :
    ∀ m ∈ ps.foldl (fun params p => p.assignTo params) params, m.1 ≠ "" ∧ Tidy m.2 := by
  induction ps generalizing params with
  | nil => exact h
  | cons p ps ih =>
      obtain ⟨hp, hps⟩ := List.forall_mem_cons.mp hps
      have hscalar : Tidy p.leaf.2 := tidy_scalar p.value
      refine ih hps (Dictionary.forall_mem_update (P := fun k w => k ≠ "" ∧ Tidy w) h ?_ ?_)
      · exact ⟨Pair.root_ne_empty hp, tidy_build hscalar p.leaf.1⟩
      · exact fun w hw => ⟨hw.1, tidy_merge hscalar p.leaf.1 hw.2⟩

theorem key_ne_nil_of_mem_pairs {query : String} {p : Pair} (h : p ∈ pairs query) : p.key ≠ [] :=
  of_decide_eq_true (List.mem_filter.mp h).2

/-- **The parameters of a query string** are tidy, and each has a name. -/
theorem tidy_of_mem_read {query : String} :
    ∀ m ∈ read query, m.1 ≠ "" ∧ Tidy m.2 :=
  tidy_foldl_assignTo (fun _ => key_ne_nil_of_mem_pairs) (List.forall_mem_nil _)

/-- There are parameters as soon as there is a pair. -/
theorem read_eq_nil_iff {query : String} : read query = [] ↔ pairs query = [] := by
  constructor
  · intro hnil
    refine List.eq_nil_iff_forall_not_mem.mpr fun p hp => ?_
    have hkeys : Dictionary.keys (read query) = [] := congrArg Dictionary.keys hnil
    rw [read, keys_ofPairs] at hkeys
    have hroot : p.root ∈ ((pairs query).map Pair.root).eraseDups :=
      List.mem_eraseDups.mpr (List.mem_map_of_mem hp)
    rw [hkeys] at hroot
    exact List.not_mem_nil hroot
  · intro hnil
    rw [read, hnil]
    rfl

end FacetQuery.Params
