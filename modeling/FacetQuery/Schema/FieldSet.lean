/-!
# Schema — Field sets

Sets of field names, listed in the order of their code points.

- `FieldSet.mem_insert`: inserting a name adds it and nothing else.
- `FieldSet.mem_ofNames`: the set of a list of names has just these as members.
- `FieldSet.ofNames_names`: a set is read back from its own list.
-/

namespace FacetQuery

/-- A set of names, as its members in ascending order. -/
structure FieldSet where
  names : List String
  ascending : names.Pairwise (· < ·)
deriving DecidableEq

namespace FieldSet

/-- `contains s name` says that `name` is in the set. -/
def contains (s : FieldSet) (name : String) : Bool :=
  name ∈ s.names

/-- The set without members. -/
def empty : FieldSet := ⟨[], .nil⟩

/-! ### Inserting into an ascending list -/

/-- `insertName name ns` puts `name` before the first larger member of `ns`, unless it is there. -/
def insertName (name : String) : List String → List String
  | [] => [name]
  | n :: ns =>
      if name < n then name :: n :: ns
      else if name = n then n :: ns
      else n :: insertName name ns

theorem mem_insertName {name x : String} {ns : List String} :
    x ∈ insertName name ns ↔ x = name ∨ x ∈ ns := by
  induction ns with
  | nil => simp [insertName]
  | cons n ns ih =>
      simp only [insertName]
      split
      · simp
      · split
        · next h => subst h; simp
        · simp only [List.mem_cons, ih]
          constructor
          · rintro (h | h | h) <;> simp [h]
          · rintro (h | h | h) <;> simp [h]

theorem pairwise_insertName {name : String} {ns : List String} (h : ns.Pairwise (· < ·)) :
    (insertName name ns).Pairwise (· < ·) := by
  induction ns with
  | nil => simp [insertName]
  | cons n ns ih =>
      obtain ⟨hn, hns⟩ := List.pairwise_cons.mp h
      simp only [insertName]
      split
      · next hlt =>
          refine List.pairwise_cons.mpr ⟨fun x hx => ?_, h⟩
          rcases List.mem_cons.mp hx with rfl | hx
          · exact hlt
          · exact String.lt_trans hlt (hn x hx)
      · next hlt =>
          split
          · exact h
          · next hne =>
              refine List.pairwise_cons.mpr ⟨fun x hx => ?_, ih hns⟩
              rcases mem_insertName.mp hx with rfl | hx
              · rcases String.le_total n x with hle | hle
                · exact Std.lt_of_le_of_ne hle (Ne.symm hne)
                · exact absurd (Std.lt_of_le_of_ne hle hne) hlt
              · exact hn x hx

/-- A name below all members goes to the head of the list. -/
theorem insertName_of_forall_lt {name : String} {ns : List String} (h : ∀ x ∈ ns, name < x) :
    insertName name ns = name :: ns := by
  cases ns with
  | nil => rfl
  | cons n ns => simp [insertName, h n (by simp)]

/-! ### Sets -/

/-- `insert name s` is `s` with `name`. -/
def insert (name : String) (s : FieldSet) : FieldSet :=
  ⟨insertName name s.names, pairwise_insertName s.ascending⟩

/-- `ofNames ns` is the set of the names in `ns`. -/
def ofNames (ns : List String) : FieldSet :=
  ns.foldr insert empty

theorem mem_insert {name x : String} {s : FieldSet} :
    x ∈ (insert name s).names ↔ x = name ∨ x ∈ s.names :=
  mem_insertName

theorem mem_ofNames {ns : List String} {x : String} : x ∈ (ofNames ns).names ↔ x ∈ ns := by
  induction ns with
  | nil => simp [ofNames, empty]
  | cons n ns ih =>
      rw [ofNames, List.foldr_cons, mem_insert, List.mem_cons]
      exact or_congr_right ih

theorem ofNames_names (s : FieldSet) : ofNames s.names = s := by
  obtain ⟨ns, h⟩ := s
  show ofNames ns = ⟨ns, h⟩
  induction ns with
  | nil => rfl
  | cons n ns ih =>
      obtain ⟨hn, hns⟩ := List.pairwise_cons.mp h
      have e : ofNames (n :: ns) = insert n (ofNames ns) := rfl
      rw [e, ih hns]
      simp only [insert, insertName_of_forall_lt hn]

end FieldSet

end FacetQuery
