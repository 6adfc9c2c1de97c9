import FacetQuery.Params.QueryString
import FacetQuery.Proofs.Dictionary
import FacetQuery.Proofs.Params.Tree
import FacetQuery.Proofs.Text.Split

/-!
# Params — Root by root

All pairs of a query string go into one dictionary, one after another.  The pairs of one root grow
the tree below it, and those of other roots have no part in that.

* `find?_ofPairs`: the tree below a root is grown by the pairs of this root.
* `keys_ofPairs`: the roots stand in the order of their first pairs.
* `read_eq_of_keyed`: pairs without a key leave no trace.
* `onlyRoot k query`: the query string that keeps nothing but the pairs of one root;
  `find?_read_onlyRoot`: it has the same tree there.
-/

namespace FacetQuery.Params

open Json Text

namespace Pair

/-- `root p` is the parameter that `p` belongs to. -/
def root (p : Pair) : String := String.ofList (Key.read p.key).root

/-- `leaf p` is what `p` puts below its root. -/
def leaf (p : Pair) : Leaf := ((Key.read p.key).path.map String.ofList, scalar p.value)

/-- `path p` is the path of that, with the root in front. -/
def path (p : Pair) : List String := p.root :: p.leaf.1

theorem assignTo_eq (p : Pair) (params : Dictionary Value) :
    p.assignTo params = assign p.root p.leaf.1 p.leaf.2 params := rfl

/-- **A pair grows the tree below its root** and leaves those below other roots alone. -/
theorem find?_assignTo (k : String) (p : Pair) (params : Dictionary Value) :
    Dictionary.find? k (p.assignTo params) =
      if p.root = k then grow (Dictionary.find? k params) p.leaf
      else Dictionary.find? k params := by
  rw [assignTo_eq, assign, Dictionary.find?_update]
  by_cases h : p.root = k
  · rw [if_pos h, if_pos h.symm, h]
    rfl
  · rw [if_neg h, if_neg (Ne.symm h)]

theorem keys_assignTo (p : Pair) (params : Dictionary Value) :
    Dictionary.keys (p.assignTo params) =
      if p.root ∈ Dictionary.keys params then Dictionary.keys params
      else Dictionary.keys params ++ [p.root] := by
  rw [assignTo_eq, assign, Dictionary.keys_update]

end Pair

/-! ### The tree below a root -/

/-- Many pairs, from any parameters: the tree below a root is grown by those of this root, in their
order. -/
theorem find?_foldl_assignTo (k : String) (ps : List Pair) (params : Dictionary Value) :
    Dictionary.find? k (ps.foldl (fun params p => p.assignTo params) params) =
      ((ps.filter (·.root = k)).map Pair.leaf).foldl grow (Dictionary.find? k params) := by
  induction ps generalizing params with
  | nil => rfl
  | cons p ps ih =>
      rw [List.foldl_cons, ih, Pair.find?_assignTo, List.filter_cons]
      by_cases h : p.root = k
      · rw [if_pos h, if_pos (decide_eq_true h)]
        rfl
      · rw [if_neg h, if_neg (by simpa using h)]

/-- The tree below a root is grown by the pairs of this root. -/
theorem find?_ofPairs (k : String) (ps : List Pair) :
    Dictionary.find? k (ofPairs ps) =
      ((ps.filter (·.root = k)).map Pair.leaf).foldl grow none :=
  find?_foldl_assignTo k ps []

/-- Query strings that have the same pairs for a root have the same tree below it. -/
theorem find?_ofPairs_congr {k : String} {ps ps' : List Pair}
    (h : ps'.filter (·.root = k) = ps.filter (·.root = k)) :
    Dictionary.find? k (ofPairs ps') = Dictionary.find? k (ofPairs ps) := by
  rw [find?_ofPairs, find?_ofPairs, h]

/-- The roots stand in the order of their first pairs. -/
theorem keys_ofPairs (ps : List Pair) :
    Dictionary.keys (ofPairs ps) = (ps.map Pair.root).eraseDups :=
  Dictionary.keys_foldl (fun params p => p.keys_assignTo params) ps

/-! ### Query strings -/

/-- `texts query` are the texts between the ampersands of a query string. -/
def texts (query : String) : List (List Char) :=
  splitOn '&' (body query.toList)

/-- `IsKeyed t` says that `t` spells a pair with a key. -/
def IsKeyed (t : List Char) : Prop := t ≠ [] ∧ (Pair.read t).key ≠ []

instance (t : List Char) : Decidable (IsKeyed t) := inferInstanceAs (Decidable (_ ∧ _))

/-- The pairs of a query string are those that its texts spell, without the ones that have no key.
-/
theorem pairs_eq (query : String) :
    pairs query = ((texts query).filter (IsKeyed ·)).map Pair.read := by
  rw [pairs, pairTexts, texts, List.filter_map, List.filter_filter]
  congr 2
  funext t
  exact (Bool.and_comm ..).trans (Bool.decide_and ..).symm

/-- Pairs without a key leave no trace, wherever they stand. -/
theorem read_eq_of_keyed {query query' : String}
    (h : (texts query').filter (IsKeyed ·) = (texts query).filter (IsKeyed ·)) :
    read query' = read query := by
  rw [read, read, pairs_eq, pairs_eq, h]

/-- `onlyRoot k query` joins the pairs of `query` that belong to `k`. -/
def onlyRoot (k : String) (query : String) : String :=
  String.ofList
    ('?' :: ['&'].intercalate ((pairTexts query).filter fun t => (Pair.read t).root = k))

/-- Texts without ampersands come back when they are joined, all but the empty ones. -/
theorem pairTexts_join {ts : List (List Char)} (h : ∀ t ∈ ts, '&' ∉ t) :
    pairTexts (String.ofList ('?' :: ['&'].intercalate ts)) = ts.filter (· ≠ []) := by
  rw [pairTexts, String.toList_ofList, body]
  cases ts with
  | nil       => rfl
  | cons t ts => rw [splitOn_intercalate h]

/-- What is kept of a query string has the pairs of one root, in their order. -/
theorem pairs_onlyRoot (k query : String) :
    pairs (onlyRoot k query) = (pairs query).filter (·.root = k) := by
  have pieces : ∀ t ∈ (pairTexts query).filter fun t => (Pair.read t).root = k, '&' ∉ t :=
    fun t ht => notMem_of_mem_splitOn (List.mem_of_mem_filter (List.mem_of_mem_filter ht))
  have nonempty : ((pairTexts query).filter fun t => (Pair.read t).root = k).filter (· ≠ []) =
      (pairTexts query).filter fun t => (Pair.read t).root = k :=
    List.filter_eq_self.mpr fun t ht => (List.mem_filter.mp (List.mem_of_mem_filter ht)).2
  rw [pairs, onlyRoot, pairTexts_join pieces, nonempty, pairs, List.filter_filter, List.filter_map,
    List.filter_map, List.filter_filter]
  congr 2
  funext t
  exact Bool.and_comm ..

/-- **The tree below a root** can be read from the pairs of this root alone. -/
theorem find?_read_onlyRoot (k query : String) :
    Dictionary.find? k (read (onlyRoot k query)) = Dictionary.find? k (read query) := by
  refine find?_ofPairs_congr ?_
  rw [pairs_onlyRoot, List.filter_filter]
  simp

end FacetQuery.Params
