import FacetQuery.Proofs.Json.Numbers
import FacetQuery.Proofs.Json.Reader.Interprets
import FacetQuery.Proofs.Json.Written

/-!
# Json — What was written is read

A value that was written is read back, if it is nested no deeper than the reader follows and repeats
no key: with the same strings and members, and each number as what its own text is read as.

* `Value.asValue?_toTree`, `Value.asMap?_toTree`: a value and the members of an object as they are
  written, and what they are read as.
* `Value.run_write`: the text of a value is read so, whatever blanks are in it.
-/

namespace FacetQuery.Json

variable {α β : Type}

/-- Where a function gives something for each element, it maps the list. -/
theorem mapM_eq_some_map {f : α → Option β} {g : α → β} {as : List α}
    (h : ∀ a ∈ as, f a = some (g a)) : as.mapM f = some (as.map g) := by
  induction as with
  | nil => rfl
  | cons a as ih =>
      obtain ⟨ha, has⟩ := List.forall_mem_cons.mp h
      rw [List.mapM_cons, ha, ih has]
      rfl

namespace Value

variable {f : Number → NumberParts} {levels : Nat}

/-- Members that are written one after another are put into a dictionary one after another. -/
theorem foldMembers_toTree {ms : List (String × Value)}
    (h : ∀ m ∈ ms, (m.2.toTree f).asValue? levels = some (m.2.mapNumbers Number.reread))
    (d : Dictionary Value) :
    Tree.foldMembers (fun k v d => (v.asValue? levels).map (Dictionary.put k · d))
        (ms.map fun m => (some m.1, m.2.toTree f)) d =
      some ((ms.map fun m => (m.1, m.2.mapNumbers Number.reread)).foldl
        (fun d m => Dictionary.put m.1 m.2 d) d) := by
  induction ms generalizing d with
  | nil => rfl
  | cons m ms ih =>
      obtain ⟨hm, hms⟩ := List.forall_mem_cons.mp h
      rw [List.map_cons, Tree.foldMembers, hm]
      exact ih hms _

/-- Under distinct keys, they make up the dictionary as they are. -/
theorem foldMembers_toTree_of_nodup {ms : List (String × Value)} (hkeys : (ms.map Prod.fst).Nodup)
    (h : ∀ m ∈ ms, (m.2.toTree f).asValue? levels = some (m.2.mapNumbers Number.reread)) :
    Tree.foldMembers (fun k v d => (v.asValue? levels).map (Dictionary.put k · d))
        (ms.map fun m => (some m.1, m.2.toTree f)) [] =
      some (ms.map fun m => (m.1, m.2.mapNumbers Number.reread)) := by
  have hkeys' : ((ms.map fun m => (m.1, m.2.mapNumbers Number.reread)).map Prod.fst).Nodup := by
    rwa [List.map_map]
  rw [foldMembers_toTree h, Dictionary.foldl_put_of_nodup (d := []) hkeys', List.nil_append]

/-- **A value as it is written** is read as this value, with its numbers read again. -/
theorem asValue?_toTree (hf : Number.Spelling f) {v : Value} (hfits : v.Fits levels)
    (h : v.WellFormed) :
    (v.toTree f).asValue? levels = some (v.mapNumbers Number.reread) := by
  induction hfits with
  | null => rw [toTree_null, Tree.asValue?]; rfl
  | bool levels b => rw [toTree_bool, Tree.asValue?]; rfl
  | number levels n => rw [toTree_number, Tree.asValue?, hf.number?]; rfl
  | string levels s => rw [toTree_string, Tree.asValue?]; rfl
  | @array inner items _ ih =>
      have hitems : (items.map (toTree f)).mapM (Tree.asValue? inner) =
          some (items.map (mapNumbers Number.reread)) := by
        rw [List.mapM_map]
        exact mapM_eq_some_map fun v hv => ih v hv (wellFormed_array_iff.mp h v hv)
      rw [toTree_array, Tree.asValue?, hitems, mapNumbers_array]
      rfl
  | object _ ih =>
      obtain ⟨hkeys, hms⟩ := wellFormed_object_iff.mp h
      rw [toTree_object, Tree.asValue?,
        foldMembers_toTree_of_nodup hkeys fun m hm => ih m hm (hms m hm), mapNumbers_object]
      rfl

/-- So are the members of an object. -/
theorem asMap?_toTree (hf : Number.Spelling f) {ms : List (String × Value)}
    (hfits : (object ms).Fits levels) (h : (object ms).WellFormed) :
    ((object ms).toTree f).asMap? levels =
      some (ms.map fun m => (m.1, m.2.mapNumbers Number.reread)) := by
  cases hfits with
  | object hfits =>
      obtain ⟨hkeys, hms⟩ := wellFormed_object_iff.mp h
      rw [toTree_object]
      exact foldMembers_toTree_of_nodup hkeys fun m hm =>
        asValue?_toTree hf (hfits m hm) (hms m hm)

end Value

end FacetQuery.Json
