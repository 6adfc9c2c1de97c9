import FacetQuery.Proofs.Params.Key
import FacetQuery.Proofs.Params.Places
import FacetQuery.Proofs.Params.Roots

/-!
# Params — What a parameter does to the tree

A pair of a query string goes down the tree as far as its path has names of members that are there.
At the place where it ends, or where the tree does not go on, the value comes in; and nothing
changes anywhere else.

* `Joins v rest old new`: the value `v` joins the tree `old`, with `rest` left of its path, and
  makes it `new`; `Clashes rest old`: it cannot, and replaces the tree.
* `exists_place`: every path leads to a place where one of these is the case.
* `Takes path v tree tree'`: what a value changes, in place and in the leaves.
* `keeps_leaves`: every pair of a query string does so, and if none of them clashes, the parameters
  have a leaf for each of them.
-/

namespace FacetQuery.Params

open Json

/-! ### Where the path ends or leaves the tree -/

/-- `Joins v rest old new` says that the value `v` joins the tree `old`, where `rest` is left of its
path, and that the tree is then `new`. -/
inductive Joins (v : Value) : List String → Value → Value → Prop where
  /-- The path ends at an array: the value is its last item. -/
  | append (items : List Value) : Joins v [] (.array items) (.array (items ++ [v]))
  /-- It ends at anything else: the two values form an array. -/
  | pair {old : Value} : (∀ items, old ≠ .array items) → Joins v [] old (.array [old, v])
  /-- It goes on to a new item of an array, the last one. -/
  | item (items : List Value) (path : List String) :
      Joins v ("" :: path) (.array items) (.array (items ++ [build path v]))
  /-- It goes on to a member that an object does not have yet. -/
  | member {name : String} {members : Dictionary Value} (path : List String) : name ≠ "" →
      name ∉ Dictionary.keys members →
      Joins v (name :: path) (.object members) (.object (members ++ [(name, build path v)]))

/-- `Clashes rest old` says that the tree `old` is not of the kind in which `rest` goes on. -/
inductive Clashes : List String → Value → Prop where
  | item {path : List String} {old : Value} : (∀ items, old ≠ .array items) →
      Clashes ("" :: path) old
  | member {name : String} {path : List String} {old : Value} : name ≠ "" →
      (∀ members, old ≠ .object members) → Clashes (name :: path) old

variable {path rest : List String} {v old new tree : Value}

/-- Where a value joins a tree, it is the only leaf that is added. -/
theorem Joins.values_eq (h : Joins v rest old new) (hv : v.IsLeaf) :
    new.values = v ::ₘ old.values := by
  cases h with
  | append items => rw [Value.values_array_concat, hv.values, Multiset.singleton_add]
  | pair _ =>
      have hone : (Value.array [old]).values = old.values := by simp [Value.values_array]
      rw [← List.singleton_append, Value.values_array_concat, hone, hv.values,
        Multiset.singleton_add]
  | item items path =>
      rw [Value.values_array_concat, values_build hv, Multiset.singleton_add]
  | member path _ _ =>
      rw [Value.values_object_concat, values_build hv, Multiset.singleton_add]

/-- The value is a leaf at the end of the path, or an item there. -/
theorem Joins.mem_leaves (h : Joins v rest old new) (hv : v.IsLeaf) :
    (rest, v) ∈ new.leaves ∨ rest = [] ∧ ([""], v) ∈ new.leaves := by
  cases h with
  | append items => exact .inr ⟨rfl, by simp [Value.leaves_array, hv.leaves, below]⟩
  | pair _ => exact .inr ⟨rfl, by simp [Value.leaves_array, hv.leaves, below]⟩
  | item items path => exact .inl (by simp [Value.leaves_array, leaves_build hv, below])
  | member path _ _ => exact .inl (by simp [Value.leaves_object, leaves_build hv, below])

/-- Where it clashes, a tree made for it takes the place of what is there. -/
theorem merge_of_clashes (h : Clashes rest old) : merge rest v old = build rest v := by
  cases h with
  | item h =>
      cases old with
      | array items => exact absurd rfl (h items)
      | _ => rfl
  | member hname h =>
      cases old with
      | array items   => exact if_neg hname
      | object members => exact absurd rfl (h members)
      | _ => rfl

/-- A path leads to a place where the value joins the tree, or to a clash. -/
theorem exists_place (path : List String) (v tree : Value) :
    ∃ fs rest old, Leads path tree fs rest old ∧
      (Joins v rest old (merge rest v old) ∨ Clashes rest old) := by
  -- On the path, for any tree: below a member the rest of it goes on in what stands there.
  induction path generalizing tree with
  | nil =>
      refine ⟨[], [], tree, leads_here [] tree, .inl ?_⟩
      cases tree with
      | array items => exact .append items
      | _ => exact .pair (by simp)
  | cons segment path ih =>
      have here (h : Joins v (segment :: path) tree (merge (segment :: path) v tree) ∨
            Clashes (segment :: path) tree) :
          ∃ fs rest old, Leads (segment :: path) tree fs rest old ∧
            (Joins v rest old (merge rest v old) ∨ Clashes rest old) :=
        ⟨[], segment :: path, tree, leads_here _ tree, h⟩
      by_cases hsegment : segment = ""
      · subst hsegment
        cases tree with
        | array items => exact here (.inl (.item items path))
        | _ => exact here (.inr (.item (by simp)))
      · cases tree with
        | object members =>
            rcases hfind : Dictionary.find? segment members with _ | t
            · -- No member has the name, so the value brings one in.
              have hnew : segment ∉ Dictionary.keys members :=
                Dictionary.find?_eq_none_iff.mp hfind
              refine here (.inl ?_)
              rw [merge, if_neg hsegment, Dictionary.update_of_notMem hnew]
              exact .member path hsegment hnew
            · obtain ⟨fs, rest, old, hleads, h⟩ := ih t
              obtain ⟨f, hleads⟩ := hleads.member hsegment hfind
              exact ⟨f :: fs, rest, old, hleads, h⟩
        | _ => exact here (.inr (.member hsegment (by simp)))

/-! ### Clashes -/

/-- `Conflict path tree` says that `path` clashes with what is somewhere in `tree`. -/
def Conflict (path : List String) (tree : Value) : Prop :=
  ∃ fs rest old, Leads path tree fs rest old ∧ Clashes rest old

/-- `conflicts path tree` finds a clash on the way down. -/
def conflicts : List String → Value → Bool
  | [],           _               => false
  | segment :: _, .array _        => segment ≠ ""
  | segment :: path, .object members =>
      segment = "" || (Dictionary.find? segment members).elim false (conflicts path)
  | _ :: _,       _               => true

/-- A path goes down through the members that it names, so a clash is decided where it ends or
leaves the tree. -/
theorem conflicts_plug (fs : List Frame) (rest : List String) (old : Value) :
    conflicts (names fs ++ rest) (plug fs old) = conflicts rest old := by
  induction fs with
  | nil => rfl
  | cons f fs ih =>
      rw [names, List.map_cons, List.cons_append, plug, conflicts, find?_frame,
        decide_eq_false f.named, Bool.false_or]
      exact ih

theorem Joins.conflicts_eq_false (h : Joins v rest old new) : conflicts rest old = false := by
  cases h with
  | append items => rfl
  | pair _ => rfl
  | item items path => rfl
  | @member name members path hname hnew =>
      rw [conflicts, Dictionary.find?_eq_none_iff.mpr hnew, decide_eq_false hname]
      rfl

/-- Where it cannot, one is. -/
theorem Clashes.conflicts_eq_true (h : Clashes rest old) : conflicts rest old = true := by
  cases h with
  | item h =>
      cases old with
      | array items => exact absurd rfl (h items)
      | _ => rfl
  | member hname h =>
      cases old with
      | array items    => exact decide_eq_true hname
      | object members => exact absurd rfl (h members)
      | _ => rfl

/-- **A clash is found** on the way down exactly if there is one. Every path ends where the value
joins the tree or clashes, and the two exclude each other. -/
theorem conflicts_iff : conflicts path tree = true ↔ Conflict path tree := by
  constructor
  · intro h
    -- Which value comes does not matter to where its path leads.
    obtain ⟨fs, rest, old, hleads, hjoins | hclashes⟩ := exists_place path .null tree
    · obtain ⟨rfl, rfl⟩ := hleads
      rw [conflicts_plug, hjoins.conflicts_eq_false] at h
      cases h
    · exact ⟨fs, rest, old, hleads, hclashes⟩
  · rintro ⟨fs, rest, old, ⟨rfl, rfl⟩, h⟩
    rw [conflicts_plug, h.conflicts_eq_true]

instance (path : List String) (tree : Value) : Decidable (Conflict path tree) :=
  decidable_of_iff _ conflicts_iff

/-! ### One pair -/

/-- Inside of objects too, the value is the only leaf that is added. -/
theorem Joins.values_plug (h : Joins v rest old new) (hv : v.IsLeaf) (fs : List Frame) :
    (plug fs new).values = v ::ₘ (plug fs old).values := by
  obtain ⟨beside, hbeside⟩ := exists_values_plug fs
  rw [hbeside, hbeside, h.values_eq hv, Multiset.cons_add]

/-- A tree with one leaf takes the place of what was there. -/
theorem values_plug_build (hv : v.IsLeaf) (path : List String) (fs : List Frame) (old : Value) :
    (plug fs (build path v)).values + old.values = v ::ₘ (plug fs old).values := by
  obtain ⟨beside, hbeside⟩ := exists_values_plug fs
  rw [hbeside, hbeside, values_build hv, ← Multiset.singleton_add]
  abel

/-- `Takes path v tree tree'` says that `tree'` is `tree` with the value `v` put at `path`. -/
structure Takes (path : List String) (v : Value) (tree tree' : Value) : Prop where
  /-- Beside one place nothing changes, and there the value joins what it finds, or clashes. -/
  place : ∃ fs rest old new, Leads path tree fs rest old ∧ tree' = plug fs new ∧
    (Joins v rest old new ∨ Clashes rest old ∧ new = build rest v)
  /-- The value is a leaf at its path, or an item there if its path ends at another value. -/
  leaf : (path, v) ∈ tree'.leaves ∨
    (path ++ [""], v) ∈ tree'.leaves ∧ ∃ fs old, Leads path tree fs [] old
  /-- Without a clash it is one leaf more, and none is lost. -/
  gains : ¬ Conflict path tree → tree'.values = v ::ₘ tree.values
  /-- Where it clashes, it takes the place of the leaves that were there, and of no others. -/
  replaces : ∀ fs rest old, Leads path tree fs rest old → Clashes rest old →
    tree' = plug fs (build rest v) ∧ tree'.values + old.values = v ::ₘ tree.values

/-- **A value that is put into a tree** is taken as `Takes` says. The place where its path leads is
the only one that matters. -/
theorem takes_merge (hv : v.IsLeaf) (path : List String) (tree : Value) :
    Takes path v tree (merge path v tree) := by
  obtain ⟨fs, rest, old, ⟨rfl, rfl⟩, hplace⟩ := exists_place path v tree
  have hleads := leads_plug fs rest old
  rw [merge_plug]
  refine ⟨⟨fs, rest, old, _, hleads, rfl, hplace.imp_right fun h => ⟨h, merge_of_clashes h⟩⟩,
    ?leaf, fun hnone => ?gains, fun fs' rest' old' hleads' h => ?replaces⟩
  case leaf =>
    rcases hplace with h | h
    · rcases h.mem_leaves hv with hleaf | ⟨rfl, hleaf⟩
      · exact .inl (mem_leaves_plug fs hleaf)
      · refine .inr ⟨?_, fs, old, hleads⟩
        rw [List.append_nil]
        exact mem_leaves_plug fs hleaf
    · have hleaf : (rest, v) ∈ (merge rest v old).leaves := by
        rw [merge_of_clashes h, leaves_build hv]
        exact List.mem_singleton_self _
      exact .inl (mem_leaves_plug fs hleaf)
  case gains =>
    rcases hplace with h | h
    · exact h.values_plug hv fs
    · exact absurd ⟨fs, rest, old, hleads, h⟩ hnone
  case replaces =>
    -- The clash is given at a place of its own, from which the tree is put together anew.
    rw [← merge_plug, hleads'.path_eq, hleads'.tree_eq, merge_plug, merge_of_clashes h]
    exact ⟨rfl, values_plug_build hv rest' fs' old'⟩

/-- A pair with a key is a value that is put into the object of all parameters. -/
theorem Pair.takes_assignTo {p : Pair} (hp : p.key ≠ []) (params : Dictionary Value) :
    Takes p.path (scalar p.value) (.object params) (.object (p.assignTo params)) := by
  have hroot : p.root ≠ "" := by
    simpa [Pair.root] using Key.root_read_ne_nil hp
  have hmerge : merge p.path (scalar p.value) (.object params) = .object (p.assignTo params) := by
    rw [Pair.path, merge, if_neg hroot]
    rfl
  exact hmerge ▸ takes_merge (isLeaf_scalar p.value) p.path (.object params)

/-! ### All pairs -/

/-- `Harmonious params ps` says that none of `ps`, put into `params` one after another, clashes with
what is there when its turn comes. -/
def Harmonious : Dictionary Value → List Pair → Prop
  | _,      []      => True
  | params, p :: ps => ¬ Conflict p.path (.object params) ∧ Harmonious (p.assignTo params) ps

instance decidableHarmonious :
    (params : Dictionary Value) → (ps : List Pair) → Decidable (Harmonious params ps)
  | _,      []      => isTrue trivial
  | params, p :: ps =>
      have := decidableHarmonious (p.assignTo params) ps
      inferInstanceAs (Decidable (_ ∧ _))

/-- Pairs that never clash add their values, each as often as it comes. Induction on the pairs, with
the parameters as they grow. -/
theorem values_foldl_assignTo {ps : List Pair} {params : Dictionary Value}
    (hps : ∀ p ∈ ps, p.key ≠ []) (h : Harmonious params ps) :
    (Value.object (ps.foldl (fun params p => p.assignTo params) params)).values =
      (ps.map fun p => scalar p.value : Multiset Value) + (Value.object params).values := by
  -- A pair is harmonious with the tree that those before it have made, so the tree is any.
  induction ps generalizing params with
  | nil => exact (Multiset.zero_add _).symm
  | cons p ps ih =>
      obtain ⟨hp, hps⟩ := List.forall_mem_cons.mp hps
      obtain ⟨hnone, h⟩ := h
      rw [List.foldl_cons, ih hps h, (Pair.takes_assignTo hp params).gains hnone, List.map_cons,
        ← Multiset.cons_coe, Multiset.cons_add, Multiset.add_cons]

/-- Two arrays grow and a value becomes an array; one pair has no key. -/
def mingled : String :=
  "?tag=a&filter[x][in][]=1&tag=b&=c&filter[x][in][]=2&tag[]=&filter[x][<]=3"

/-- **No parameter is lost.** Each pair of a query string adds its value to the tree as a leaf,
where its path says, and changes nothing else; only where it clashes, it takes the place of what is
there. If none clashes, the parameters have just the values of all pairs as their leaves. -/
theorem keeps_leaves :
    (∀ (params : Dictionary Value) (p : Pair), p.key ≠ [] →
      Takes p.path (scalar p.value) (.object params) (.object (p.assignTo params))) ∧
    (∀ query : String, Harmonious [] (pairs query) →
      (Value.object (read query)).values = ((pairs query).map fun p => scalar p.value) ∧
        (Value.object (read query)).leaves.length = (pairs query).length) := by
  refine ⟨fun params p hp => p.takes_assignTo hp params, fun query h => ?_⟩
  have hkeys : ∀ p ∈ pairs query, p.key ≠ [] := fun p hp => by
    simpa using (List.mem_filter.mp hp).2
  have hvalues : (Value.object (read query)).values = ((pairs query).map fun p => scalar p.value) :=
    (values_foldl_assignTo hkeys h).trans (Multiset.add_zero _)
  refine ⟨hvalues, ?_⟩
  -- As many leaves as values, each counted as often as it comes.
  have hcard := congrArg Multiset.card hvalues
  rwa [Value.values, Multiset.coe_card, Multiset.coe_card, List.length_map, List.length_map]
    at hcard

/-- A pair clashes with an array, where it wants a member. -/
theorem keeps_leaves_mingled :
    Harmonious [] (pairs mingled) ∧ (Value.object (read mingled)).leaves.length = 6 ∧
      Conflict (Pair.path ⟨"tag[b]".toList, "d".toList⟩) (.object (read mingled)) ∧
      Takes (Pair.path ⟨"tag[b]".toList, "d".toList⟩) (scalar "d".toList)
        (.object (read mingled))
        (.object (Pair.assignTo ⟨"tag[b]".toList, "d".toList⟩ (read mingled))) :=
  have h : Harmonious [] (pairs mingled) := by decide +kernel
  have hsix : (pairs mingled).length = 6 := by decide +kernel
  ⟨h, (keeps_leaves.2 mingled h).2.trans hsix, by decide +kernel,
    keeps_leaves.1 (read mingled) ⟨"tag[b]".toList, "d".toList⟩ (by decide)⟩

end FacetQuery.Params
