import FacetQuery.Params.QueryString
import FacetQuery.Proofs.Params.Key
import FacetQuery.Proofs.Params.Tree
import FacetQuery.Proofs.Text.Percent
import FacetQuery.Proofs.Text.Split

/-!
# Params — Writing a tree as a query string

A query string holds a tree of parameters as pairs, one for each leaf: the path as a key, the
scalar as a value, both with every byte behind a percent sign.

* `WritableParams params`: the trees that can be written.
* `write`: the query string of a tree.
* `pairs_write`: its pairs are the leaves of the tree, in their order.
* `read_write`: it reads as the tree that was written.
-/

namespace FacetQuery.Params

open Json Text

/-- `WritableParams params`: under distinct names that are not empty and do not open a bracket
stand trees that can be written. -/
structure WritableParams (params : Dictionary Value) : Prop where
  nodup : (Dictionary.keys params).Nodup
  roots : ∀ m ∈ params, m.1 ≠ "" ∧ '[' ∉ m.1.toList
  trees : ∀ m ∈ params, Writable m.2

/-! ### Writing -/

/-- `keyOf path` is the key of a leaf with this path: its first name is the root. -/
def keyOf : List String → Key
  | []           => ⟨[], []⟩
  | root :: path => ⟨root.toList, path.map String.toList⟩

/-- `pairOf l` is the pair of the leaf `l`. -/
def pairOf (l : Leaf) : Pair := ⟨(keyOf l.1).text, scalarText l.2⟩

/-- `pairText digit p` writes a pair with the hexadecimal digits that `digit` gives. -/
def pairText (digit : Nat → Char) (p : Pair) : List Char :=
  percentEncode digit p.key ++ '=' :: percentEncode digit p.value

/-- `write digit repeats params` writes the leaves of a tree, pair by pair. -/
def write (digit : Nat → Char) (repeats : List String → Bool) (params : Dictionary Value) :
    String :=
  String.ofList
    (['&'].intercalate (((leavesOfMembers repeats params).map pairOf).map (pairText digit)))

variable {digit : Nat → Char}

/-! ### Reading the pairs -/

/-- **A pair that is written** is read back. The equals sign between key and value is the first one,
since both are encoded. -/
theorem read_pairText (hd : IsHexDigits digit) (p : Pair) : Pair.read (pairText digit p) = p := by
  have equals : '=' ∉ percentEncode digit p.key :=
    notMem_percentEncode hd _ (by decide) (by decide)
  rw [Pair.read, pairText, cutFirst_append equals]
  simp only [percentDecode_percentEncode hd]

/-- No ampersand is in it, so it is cut from the next one where it ends. -/
theorem ampersand_notMem_pairText (hd : IsHexDigits digit) (p : Pair) : '&' ∉ pairText digit p := by
  have key : '&' ∉ percentEncode digit p.key := notMem_percentEncode hd _ (by decide) (by decide)
  have value : '&' ∉ percentEncode digit p.value :=
    notMem_percentEncode hd _ (by decide) (by decide)
  simp [pairText, key, value]

/-- Pairs with a key, joined by ampersands, are read one by one. -/
theorem pairs_intercalate (hd : IsHexDigits digit) {ps : List Pair} (h : ∀ p ∈ ps, p.key ≠ []) :
    pairs (String.ofList (['&'].intercalate (ps.map (pairText digit)))) = ps := by
  cases ps with
  | nil => rfl
  | cons p ps =>
      obtain ⟨rest, hrest⟩ := percentEncode_of_ne_nil digit (h p List.mem_cons_self)
      -- The text begins with a percent sign, so there is no `?` to take off.
      have bare : body (['&'].intercalate ((p :: ps).map (pairText digit)))
          = ['&'].intercalate ((p :: ps).map (pairText digit)) := by
        rw [List.map_cons, pairText, hrest]
        cases ps <;> rfl
      have split : splitOn '&' (['&'].intercalate ((p :: ps).map (pairText digit)))
          = (p :: ps).map (pairText digit) := by
        refine splitOn_intercalate fun cs hcs => ?_
        rw [← List.map_cons] at hcs
        obtain ⟨p', -, rfl⟩ := List.mem_map.mp hcs
        exact ampersand_notMem_pairText hd p'
      have texts : ((p :: ps).map (pairText digit)).filter (· ≠ [])
          = (p :: ps).map (pairText digit) := by
        refine List.filter_eq_self.mpr fun cs hcs => ?_
        obtain ⟨p', -, rfl⟩ := List.mem_map.mp hcs
        simp [pairText]
      have keys : (p :: ps).filter (fun p => decide (p.key ≠ [])) = p :: ps :=
        List.filter_eq_self.mpr fun p' hp' => decide_eq_true (h p' hp')
      have read : ((p :: ps).map (pairText digit)).map Pair.read = p :: ps := by
        rw [List.map_map]
        exact (List.map_congr_left fun p' _ => read_pairText hd p').trans (List.map_id _)
      rw [pairs, pairTexts, String.toList_ofList, bare, split, texts, read, keys]

/-! ### Reading the tree -/

/-- A leaf below the name of a parameter. -/
theorem WritableParams.of_mem_leaves {params : Dictionary Value} (h : WritableParams params)
    {repeats : List String → Bool} {l : Leaf} (hl : l ∈ leavesOfMembers repeats params) :
    ∃ root path, l.1 = root :: path ∧ (root ≠ "" ∧ '[' ∉ root.toList) ∧
      (∀ segment ∈ path, ']' ∉ segment.toList) ∧ IsScalar l.2 := by
  obtain ⟨m, hm, l', hl', rfl⟩ := exists_member_of_mem_leavesOfMembers hl
  obtain ⟨hs, hp⟩ := (h.trees m hm).of_mem_leaves hl'
  exact ⟨m.1, l'.1, rfl, h.roots m hm, hp, hs⟩

/-- **The pairs of a tree that is written** are its leaves, in their order. Each has a key, as its
path begins with a name that is not empty. -/
theorem pairs_write (hd : IsHexDigits digit) {params : Dictionary Value} (h : WritableParams params)
    (repeats : List String → Bool) :
    pairs (write digit repeats params) = (leavesOfMembers repeats params).map pairOf := by
  refine pairs_intercalate hd fun p hp => ?_
  obtain ⟨l, hl, rfl⟩ := List.mem_map.mp hp
  -- The path of a leaf begins with a name that is not empty, so the pair has a key.
  obtain ⟨root, path, hl, hroot, -⟩ := h.of_mem_leaves hl
  simp [pairOf, hl, keyOf, Key.text, hroot.1]

/-- The pair of a leaf puts this leaf where it belongs. -/
theorem assignTo_pairOf {l : Leaf} {root : String} {path : List String} (hl : l.1 = root :: path)
    (hroot : root ≠ "" ∧ '[' ∉ root.toList) (hpath : ∀ segment ∈ path, ']' ∉ segment.toList)
    (hs : IsScalar l.2) (params : Dictionary Value) :
    (pairOf l).assignTo params = assignLeaf params l := by
  have close : ∀ segment ∈ path.map String.toList, ']' ∉ segment := by
    intro segment hsegment
    obtain ⟨s, hs, rfl⟩ := List.mem_map.mp hsegment
    exact hpath s hs
  have key : Key.read (keyOf (root :: path)).text = keyOf (root :: path) :=
    Key.read_text (by simp [keyOf, hroot.1]) hroot.2 close
  have segments : (path.map String.toList).map String.ofList = path := by
    simp [Function.comp_def]
  simp only [Pair.assignTo, pairOf, assignLeaf, hl, key, scalar_scalarText hs]
  simp only [keyOf, String.ofList_toList, segments]

/-- A tree with every kind of leaf: the items of the second array come under one repeated key. -/
def sample : Dictionary Value :=
  [("filter", .object
      [("a[b", .object [("like", .string "%é%"), ("is", .null)]),
       ("id", .object [("in", .array [.ofUInt64 7, .string "x&y=z"])])]),
   ("tag", .array [.bool true, .string ""])]

theorem writableParams_sample : WritableParams sample where
  nodup := by decide
  roots := by decide
  trees := by
    have like : Writable (.string "%é%") := .scalar (.string (by decide))
    have items : ∀ v ∈ [Value.ofUInt64 7, .string "x&y=z"], IsScalar v :=
      List.forall_mem_cons.mpr
        ⟨.whole (by decide), List.forall_mem_singleton.mpr (.string (by decide))⟩
    have tags : ∀ v ∈ [Value.bool true, .string ""], IsScalar v :=
      List.forall_mem_cons.mpr
        ⟨.bool true, List.forall_mem_singleton.mpr (.string (by decide))⟩
    have name : Writable (.object [("like", .string "%é%"), ("is", .null)]) :=
      .object (List.cons_ne_nil _ _) (by decide) (by decide)
        (List.forall_mem_cons.mpr ⟨like, List.forall_mem_singleton.mpr (.scalar .null)⟩)
    have id : Writable (.object [("in", .array [.ofUInt64 7, .string "x&y=z"])]) :=
      .object (List.cons_ne_nil _ _) (by decide) (by decide)
        (List.forall_mem_singleton.mpr (.array (List.cons_ne_nil _ _) items))
    have filter : Writable (.object [("a[b", _), ("id", _)]) :=
      .object (List.cons_ne_nil _ _) (by decide) (by decide)
        (List.forall_mem_cons.mpr ⟨name, List.forall_mem_singleton.mpr id⟩)
    exact List.forall_mem_cons.mpr
      ⟨filter, List.forall_mem_singleton.mpr (.array (List.cons_ne_nil _ _) tags)⟩

/-- **A tree that is written as a query string** is read back from it, order included. -/
theorem read_write (hd : IsHexDigits digit) (repeats : List String → Bool)
    {params : Dictionary Value} (h : WritableParams params) :
    read (write digit repeats params) = params := by
  -- A pair does to the parameters what its leaf does to the tree.
  have assigned : ∀ (ls : List Leaf) (start : Dictionary Value),
      (∀ l ∈ ls, l ∈ leavesOfMembers repeats params) →
      (ls.map pairOf).foldl (fun params p => p.assignTo params) start
        = ls.foldl assignLeaf start := by
    intro ls start hls
    induction ls generalizing start with
    | nil => rfl
    | cons l ls ih =>
        obtain ⟨hl, hls⟩ := List.forall_mem_cons.mp hls
        obtain ⟨root, path, hpath, hroot, hsegments, hs⟩ := h.of_mem_leaves hl
        rw [List.map_cons, List.foldl_cons, List.foldl_cons,
          assignTo_pairOf hpath hroot hsegments hs, ih _ hls]
  rw [read, pairs_write hd h, ofPairs, assigned _ _ fun _ hl => hl]
  exact foldl_assignLeaf_leavesOfMembers (d := []) h.nodup
    (fun m hm repeats => foldl_grow_leaves (h.trees m hm) repeats) repeats

theorem read_write_sample :
    IsHexDigits hexDigit ∧ WritableParams sample ∧
      read (write hexDigit (fun path => path = ["tag"]) sample) = sample :=
  ⟨isHexDigits_hexDigit, writableParams_sample,
    read_write isHexDigits_hexDigit _ writableParams_sample⟩

example : write hexDigit (fun path => path = ["a"]) [("a", .array [.null, .null])]
    = "%61=%6e%75%6c%6c&%61=%6e%75%6c%6c" := by decide

end FacetQuery.Params
