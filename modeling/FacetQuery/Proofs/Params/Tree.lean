import FacetQuery.Params.Tree
import FacetQuery.Proofs.Dictionary
import FacetQuery.Proofs.Params.Scalar

/-!
# Params — Leaves of a tree

A tree of parameters is the sum of its leaves: put one after another where their paths say, they
make up the tree again, each in its own place.

* `Writable v`: the trees that have this property.
* `leaves repeats v`: the scalars of a tree with their paths, depth first.
* `foldl_grow_leaves`: the leaves of a tree, put together, are this tree.
* `foldl_assignLeaf_leavesOfMembers`: so it is for the trees under several names.
-/

namespace FacetQuery.Params

open Json

/-- `Writable v`: `v` is a scalar, a list of scalars, or an object of such trees.  Neither lists
nor objects are empty; keys are distinct, not empty, and do not close a bracket. -/
inductive Writable : Value → Prop where
  | scalar {v : Value} : IsScalar v → Writable v
  | array {items : List Value} : items ≠ [] → (∀ v ∈ items, IsScalar v) → Writable (.array items)
  | object {members : Dictionary Value} : members ≠ [] → (Dictionary.keys members).Nodup →
      (∀ m ∈ members, m.1 ≠ "" ∧ ']' ∉ m.1.toList) → (∀ m ∈ members, Writable m.2) →
      Writable (.object members)

/-! ### Leaves -/

/-- A scalar and the path to it. -/
abbrev Leaf := List String × Value

/-- `below k l` is the leaf `l` under the name `k`. -/
def below (k : String) (l : Leaf) : Leaf := (k :: l.1, l.2)

/-- `itemPath repeats items` is the path of each item of an array: an empty segment, or nothing if
the array has two items or more and shall have its key repeated. -/
def itemPath (repeats : Bool) (items : List Value) : List String :=
  if repeats && 2 ≤ items.length then [] else [""]

mutual

/-- `leaves repeats v` are the scalars in `v` from left to right, each with its path; `repeats`
tells of each array, by its path, whether its key is repeated. -/
def leaves (repeats : List String → Bool) : Value → List Leaf
  | .array items    => items.map fun v => (itemPath (repeats []) items, v)
  | .object members => leavesOfMembers repeats members
  | v               => [([], v)]

/-- `leavesOfMembers repeats ms` are the leaves of all members. -/
def leavesOfMembers (repeats : List String → Bool) : List (String × Value) → List Leaf
  | []           => []
  | (k, v) :: ms =>
      (leaves (fun path => repeats (k :: path)) v).map (below k) ++ leavesOfMembers repeats ms

end

theorem leaves_of_isScalar {v : Value} (h : IsScalar v) (repeats : List String → Bool) :
    leaves repeats v = [([], v)] := by
  cases h <;> rw [leaves] <;> simp

/-- A leaf of the members is a leaf of one of them, below its key. -/
theorem exists_member_of_mem_leavesOfMembers {repeats : List String → Bool}
    {ms : List (String × Value)} {l : Leaf} (h : l ∈ leavesOfMembers repeats ms) :
    ∃ m ∈ ms, ∃ l' ∈ leaves (fun path => repeats (m.1 :: path)) m.2, l = below m.1 l' := by
  induction ms with
  | nil => exact absurd h List.not_mem_nil
  | cons m ms ih =>
      obtain ⟨k, v⟩ := m
      rw [leavesOfMembers] at h
      rcases List.mem_append.mp h with h | h
      · obtain ⟨l', hl', rfl⟩ := List.mem_map.mp h
        exact ⟨(k, v), List.mem_cons_self, l', hl', rfl⟩
      · obtain ⟨m, hm, hl⟩ := ih h
        exact ⟨m, List.mem_cons_of_mem _ hm, hl⟩

/-- The leaves of a tree are scalars, and their paths do not close a bracket. -/
theorem Writable.of_mem_leaves {v : Value} (h : Writable v) {repeats : List String → Bool}
    {l : Leaf} (hl : l ∈ leaves repeats v) :
    IsScalar l.2 ∧ ∀ segment ∈ l.1, ']' ∉ segment.toList := by
  induction h generalizing repeats l with
  | scalar h =>
      rw [leaves_of_isScalar h, List.mem_singleton] at hl
      exact hl ▸ ⟨h, List.forall_mem_nil _⟩
  | array _ hs =>
      rw [leaves] at hl
      obtain ⟨v, hv, rfl⟩ := List.mem_map.mp hl
      refine ⟨hs v hv, ?_⟩
      unfold itemPath
      split <;> simp
  | object _ _ hk _ ih =>
      rw [leaves] at hl
      obtain ⟨m, hm, l', hl', rfl⟩ := exists_member_of_mem_leavesOfMembers hl
      obtain ⟨hs, hp⟩ := ih m hm hl'
      exact ⟨hs, List.forall_mem_cons.mpr ⟨(hk m hm).2, hp⟩⟩

/-! ### Putting leaves together -/

/-- `grow tree l` is `tree` with the leaf `l`; without a tree it is the leaf alone. -/
def grow (tree : Option Value) (l : Leaf) : Option Value :=
  some (tree.elim (build l.1 l.2) (merge l.1 l.2))

/-- `assignLeaf params l` puts the leaf `l` under the name at the head of its path. -/
def assignLeaf (params : Dictionary Value) (l : Leaf) : Dictionary Value :=
  match l.1 with
  | []           => params
  | root :: path => assign root path l.2 params

/-- `held k tree` is what a dictionary holds when there is a tree under the last name `k`, or not
yet. -/
def held (k : String) (tree : Option Value) : Dictionary Value := (tree.map (k, ·)).toList

/-- Leaves under a new name leave everything before it alone and grow into one tree. -/
theorem foldl_assignLeaf_below {k : String} {d : Dictionary Value} (hk : k ∉ Dictionary.keys d)
    (ls : List Leaf) (tree : Option Value) :
    (ls.map (below k)).foldl assignLeaf (d ++ held k tree) = d ++ held k (ls.foldl grow tree) := by
  induction ls generalizing tree with
  | nil => rfl
  | cons l ls ih =>
      have step : assignLeaf (d ++ held k tree) (below k l) = d ++ held k (grow tree l) := by
        cases tree with
        | none   => exact (List.append_nil d).symm ▸ Dictionary.update_of_notMem hk
        | some t => exact Dictionary.update_append_cons hk
      rw [List.map_cons, List.foldl_cons, List.foldl_cons, step, ih]

/-- Members whose trees grow from their leaves are put one behind the other. -/
theorem foldl_assignLeaf_leavesOfMembers {ms : List (String × Value)} {d : Dictionary Value}
    (hk : (Dictionary.keys (d ++ ms)).Nodup)
    (hms : ∀ m ∈ ms, ∀ repeats, (leaves repeats m.2).foldl grow none = some m.2)
    (repeats : List String → Bool) :
    (leavesOfMembers repeats ms).foldl assignLeaf d = d ++ ms := by
  induction ms generalizing d with
  | nil => rw [leavesOfMembers, List.append_nil]; rfl
  | cons m ms ih =>
      obtain ⟨k, v⟩ := m
      obtain ⟨hm, hms⟩ := List.forall_mem_cons.mp hms
      have hd : d ++ (k, v) :: ms = (d ++ [(k, v)]) ++ ms := by simp
      rw [hd] at hk
      -- The name is new, so the leaves of `v` grow into a tree of their own behind `d`.
      have new : k ∉ Dictionary.keys d := by
        simp only [Dictionary.keys, List.map_append, List.map_cons, List.map_nil] at hk
        exact List.disjoint_singleton.mp (List.disjoint_of_nodup_append hk.of_append_left)
      have first := foldl_assignLeaf_below new (leaves (fun path => repeats (k :: path)) v) none
      rw [hm, held, Option.map_none, Option.toList_none, List.append_nil] at first
      rw [leavesOfMembers, List.foldl_append, first, hd]
      exact ih hk hms

/-- Below an object every leaf that has a name goes to its members. -/
theorem foldl_grow_object {ls : List Leaf} (h : ∀ l ∈ ls, ∃ k path, l.1 = k :: path ∧ k ≠ "")
    (d : Dictionary Value) :
    ls.foldl grow (some (.object d)) = some (.object (ls.foldl assignLeaf d)) := by
  induction ls generalizing d with
  | nil => rfl
  | cons l ls ih =>
      obtain ⟨⟨k, path, hp, hk⟩, h⟩ := List.forall_mem_cons.mp h
      have step : grow (some (.object d)) l = some (.object (assignLeaf d l)) := by
        simp [grow, assignLeaf, hp, merge, hk, assign]
      rw [List.foldl_cons, List.foldl_cons, step, ih h]

/-- The first of them makes the object. -/
theorem foldl_grow_none {ls : List Leaf} (hne : ls ≠ [])
    (h : ∀ l ∈ ls, ∃ k path, l.1 = k :: path ∧ k ≠ "") :
    ls.foldl grow none = some (.object (ls.foldl assignLeaf [])) := by
  rw [← foldl_grow_object h]
  obtain ⟨l, ls, rfl⟩ := List.exists_cons_of_ne_nil hne
  obtain ⟨k, path, hp, hk⟩ := h l List.mem_cons_self
  have step : grow none l = grow (some (.object [])) l := by
    simp [grow, hp, build, merge, hk, Dictionary.update]
  rw [List.foldl_cons, List.foldl_cons, step]

/-- An array takes items at its end, whether its key is repeated or ends in an empty segment. -/
theorem foldl_grow_array {path : List String} (hp : path = [] ∨ path = [""])
    (items old : List Value) :
    (items.map fun v => ((path, v) : Leaf)).foldl grow (some (.array old))
      = some (.array (old ++ items)) := by
  induction items generalizing old with
  | nil => rw [List.append_nil]; rfl
  | cons v items ih =>
      have step : grow (some (.array old)) (path, v) = some (.array (old ++ [v])) := by
        rcases hp with rfl | rfl <;> rfl
      rw [List.map_cons, List.foldl_cons, step, ih, List.append_assoc, List.singleton_append]

theorem merge_nil_of_isScalar {v : Value} (h : IsScalar v) (w : Value) :
    merge [] w v = .array [v, w] := by
  cases h <;> rfl

/-- The items of an array, put together, are this array. -/
theorem foldl_grow_items {items : List Value} (hne : items ≠ []) (h : ∀ v ∈ items, IsScalar v)
    (repeats : Bool) :
    (items.map fun v => ((itemPath repeats items, v) : Leaf)).foldl grow none
      = some (.array items) := by
  unfold itemPath
  split
  · next hr =>
      have two : 2 ≤ items.length := by
        simp only [Bool.and_eq_true, decide_eq_true_eq] at hr
        exact hr.2
      match items, two with
      | v :: w :: items, _ =>
          -- The first value stands alone until the second makes an array of the two.
          have pair : grow (grow none ([], v)) ([], w) = some (.array [v, w]) :=
            congrArg some (merge_nil_of_isScalar (h v List.mem_cons_self) w)
          rw [List.map_cons, List.map_cons, List.foldl_cons, List.foldl_cons, pair]
          exact foldl_grow_array (.inl rfl) items [v, w]
  · obtain ⟨v, items, rfl⟩ := List.exists_cons_of_ne_nil hne
    have first : grow none ([""], v) = some (.array [v]) := rfl
    rw [List.map_cons, List.foldl_cons, first]
    exact foldl_grow_array (.inr rfl) items [v]

/-- **The leaves of a tree**, put together in their order, are this tree. -/
theorem foldl_grow_leaves {v : Value} (h : Writable v) (repeats : List String → Bool) :
    (leaves repeats v).foldl grow none = some v := by
  induction h generalizing repeats with
  | scalar h => rw [leaves_of_isScalar h]; rfl
  | array hne hs =>
      rw [leaves]
      exact foldl_grow_items hne hs (repeats [])
  | @object members hne hk hkeys hm ih =>
      have named : ∀ l ∈ leavesOfMembers repeats members, ∃ k path, l.1 = k :: path ∧ k ≠ "" := by
        intro l hl
        obtain ⟨m, hm, l', -, rfl⟩ := exists_member_of_mem_leavesOfMembers hl
        exact ⟨m.1, l'.1, rfl, (hkeys m hm).1⟩
      have members_eq : (leavesOfMembers repeats members).foldl assignLeaf [] = members :=
        foldl_assignLeaf_leavesOfMembers (d := []) hk ih repeats
      -- There is a member, hence a leaf, and the first leaf makes the object.
      have some_leaf : leavesOfMembers repeats members ≠ [] := by
        intro hnil
        rw [hnil] at members_eq
        exact hne members_eq.symm
      rw [leaves, foldl_grow_none some_leaf named, members_eq]

end FacetQuery.Params
