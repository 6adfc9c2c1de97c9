import FacetQuery.Params.QueryString
import FacetQuery.Proofs.Dictionary
import FacetQuery.Request

/-!
# WellFormed — Objects with distinct keys

The members of an object come as a list, in which a key could stand twice; in the values that
requests and schemas are made of none does, at any depth.

* `Json.Value.WellFormed`, `Request.WellFormed`: that property of a value and of a request with its
  schema.
* `Params.wellFormed_read`: whatever a query string says, its parameters are well-formed.
-/

namespace FacetQuery

open Json

/-- No object in the value, at any depth, has two members under one key. -/
inductive Json.Value.WellFormed : Value → Prop where
  | null : WellFormed .null
  | bool (b : Bool) : WellFormed (.bool b)
  | number (n : Number) : WellFormed (.number n)
  | string (s : String) : WellFormed (.string s)
  | array {items : List Value} : (∀ v ∈ items, WellFormed v) → WellFormed (.array items)
  | object {members : Dictionary Value} : (Dictionary.keys members).Nodup →
      (∀ m ∈ members, WellFormed m.2) → WellFormed (.object members)

namespace Json.Value

attribute [simp] WellFormed.null WellFormed.bool WellFormed.number WellFormed.string

@[simp] theorem wellFormed_array_iff {items : List Value} :
    (array items).WellFormed ↔ ∀ v ∈ items, v.WellFormed :=
  ⟨fun h => by cases h with | array hi => exact hi, .array⟩

@[simp] theorem wellFormed_object_iff {members : Dictionary Value} :
    (object members).WellFormed ↔
      (Dictionary.keys members).Nodup ∧ ∀ m ∈ members, m.2.WellFormed :=
  ⟨fun h => by cases h with | object hk hm => exact ⟨hk, hm⟩, fun h => .object h.1 h.2⟩

end Json.Value

/-- The parameters of the request and the default filter of its schema are well-formed. -/
structure Request.WellFormed (r : Request) : Prop where
  params : (Value.object r.params).WellFormed
  defaultFilter : (Value.object r.schema.filter.default).WellFormed

/-- A parameter of a well-formed request is well-formed. -/
theorem Request.WellFormed.param {r : Request} (hr : r.WellFormed) {name : String} {v : Value}
    (h : r.param? name = some v) : v.WellFormed := by
  exact (Value.wellFormed_object_iff.mp hr.params).2 _ (Dictionary.mem_of_find? h)

namespace Params

/-- A tree that is built along a path has one member at each level. -/
theorem wellFormed_build {v : Value} (hv : v.WellFormed) (path : List String) :
    (build path v).WellFormed := by
  induction path with
  | nil => exact hv
  | cons segment path ih =>
      rw [build]
      split
      · exact .array (by simpa using ih)
      · exact .object (by simp [Dictionary.keys]) (by simpa using ih)

/-- Putting a value into a tree repeats no key: one that is there is written in its place. Induction
along the path. -/
theorem wellFormed_merge {v : Value} (hv : v.WellFormed) (path : List String) {tree : Value}
    (ht : tree.WellFormed) : (merge path v tree).WellFormed := by
  induction path generalizing tree with
  | nil =>
      -- Where the path ends, the value joins an array, or makes one with what is there.
      have hpair : (Value.array [tree, v]).WellFormed := .array (by simp [ht, hv])
      cases ht with
      | array hi =>
          exact .array fun w hw =>
            (List.mem_append.mp hw).elim (hi w) fun hw => List.mem_singleton.mp hw ▸ hv
      | null => exact hpair
      | bool _ => exact hpair
      | number _ => exact hpair
      | string _ => exact hpair
      | object _ _ => exact hpair
  | cons segment path ih =>
      -- Where it goes on and the tree does not, a new tree takes the place of what is there.
      have hb := wellFormed_build hv (segment :: path)
      cases ht with
      | array hi =>
          rw [merge]
          split
          · refine .array fun w hw => (List.mem_append.mp hw).elim (hi w) fun hw => ?_
            rw [List.mem_singleton.mp hw]
            exact wellFormed_build hv path
          · exact hb
      | object hk hm =>
          rw [merge]
          split
          · exact hb
          · exact .object (Dictionary.nodup_keys_update hk)
              (Dictionary.forall_update hm (wellFormed_build hv path) fun _ => ih)
      | null => exact hb
      | bool _ => exact hb
      | number _ => exact hb
      | string _ => exact hb

theorem wellFormed_scalar (cs : List Char) : (scalar cs).WellFormed := by
  unfold scalar
  repeat' split
  all_goals constructor

/-- Pairs put one after another keep the parameters well-formed. Induction on the pairs; each goes
below its root as one value. -/
theorem wellFormed_ofPairs (ps : List Pair) {params : Dictionary Value}
    (h : (Value.object params).WellFormed) :
    (Value.object (ps.foldl (fun params p => p.assignTo params) params)).WellFormed := by
  induction ps generalizing params with
  | nil => exact h
  | cons p ps ih =>
      cases h with
      | object hk hm =>
          have hv := wellFormed_scalar p.value
          exact ih (.object (Dictionary.nodup_keys_update hk)
            (Dictionary.forall_update hm (wellFormed_build hv _) fun _ => wellFormed_merge hv _))

/-- **The parameters of any query string** are well-formed, for a pair never adds a key that is
there. -/
theorem wellFormed_read (query : String) : (Value.object (read query)).WellFormed :=
  wellFormed_ofPairs (pairs query) (.object .nil (by simp))

end Params

end FacetQuery
