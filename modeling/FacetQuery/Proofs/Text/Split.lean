import FacetQuery.Text.Split
import Mathlib.Data.List.TakeWhile

/-!
# Text — Splitting what was joined

* `splitOn_intercalate`: texts without the separator come back from between separators.
* `splitOn_eq_iff`: these are the only pieces into which a text is cut.
* `cutFirst_append`: so does what stands around the first separator.
* `notMem_of_mem_splitOn`: no piece has the separator in it.
* `Trimmed cs ds`: what is left of `cs` without the blanks at its ends is `ds`; `trimmed_iff`: this
  is what cutting off computes, and nothing else is left.
-/

namespace FacetQuery.Text

/-! ### Separators -/

/-- A piece ends in front of the separator, so none has it inside. -/
theorem notMem_of_mem_splitOn {sep : Char} {cs piece : List Char} (h : piece ∈ splitOn sep cs) :
    sep ∉ piece := by
  induction cs generalizing piece with
  | nil =>
      rw [splitOn, List.mem_singleton] at h
      exact h ▸ List.not_mem_nil
  | cons c cs ih =>
      rw [splitOn] at h
      split at h
      · rcases List.mem_cons.mp h with rfl | h
        · exact List.not_mem_nil
        · exact ih h
      · next hc =>
          obtain ⟨first, rest, hpieces⟩ := List.exists_cons_of_ne_nil (splitOn_ne_nil sep cs)
          rw [hpieces] at h ih
          rcases List.mem_cons.mp h with rfl | h
          · exact List.not_mem_cons_of_ne_of_not_mem (Ne.symm hc) (ih List.mem_cons_self)
          · exact ih (List.mem_cons_of_mem _ h)

/-- **Texts without the separator** come back from between separators. -/
theorem splitOn_intercalate {sep : Char} {cs : List Char} {css : List (List Char)}
    (h : ∀ ds ∈ cs :: css, sep ∉ ds) : splitOn sep ([sep].intercalate (cs :: css)) = cs :: css := by
  induction css generalizing cs with
  | nil =>
      rw [List.intercalate_singleton]
      exact splitOn_of_notMem (h cs List.mem_cons_self)
  | cons ds css ih =>
      obtain ⟨hcs, hcss⟩ := List.forall_mem_cons.mp h
      rw [List.intercalate_cons_cons, List.append_assoc, List.singleton_append,
        splitOn_append hcs, ih hcss]

/-- The pieces with separators between them are the text that was split. -/
theorem intercalate_splitOn (sep : Char) (cs : List Char) :
    [sep].intercalate (splitOn sep cs) = cs := by
  induction cs with
  | nil => rfl
  | cons c cs ih =>
      obtain ⟨piece, pieces, hpieces⟩ := List.exists_cons_of_ne_nil (splitOn_ne_nil sep cs)
      rw [hpieces] at ih
      rw [splitOn, hpieces]
      split
      · next hc => rw [List.intercalate_cons_cons, ih, hc]; rfl
      · cases pieces with
        | nil => rw [← ih, List.intercalate_singleton, List.intercalate_singleton]
        | cons next pieces =>
            rw [← ih, List.intercalate_cons_cons, List.intercalate_cons_cons]
            rfl

/-- **The pieces of a text** are the only ones, one or more, that have no separator and give the
text back when they are joined. -/
theorem splitOn_eq_iff {sep : Char} {cs : List Char} {pieces : List (List Char)} :
    splitOn sep cs = pieces ↔
      pieces ≠ [] ∧ (∀ piece ∈ pieces, sep ∉ piece) ∧ [sep].intercalate pieces = cs := by
  constructor
  · rintro rfl
    exact ⟨splitOn_ne_nil sep cs, fun _ => notMem_of_mem_splitOn, intercalate_splitOn sep cs⟩
  · rintro ⟨hne, h, rfl⟩
    obtain ⟨piece, pieces, rfl⟩ := List.exists_cons_of_ne_nil hne
    exact splitOn_intercalate h

/-- A text is cut at the first separator, and those behind it stay. -/
theorem cutFirst_append {sep : Char} {before : List Char} (h : sep ∉ before) (after : List Char) :
    cutFirst sep (before ++ sep :: after) = (before, after) := by
  have other : ∀ c ∈ before, decide (c ≠ sep) = true := fun c hc =>
    decide_eq_true fun e => h (e ▸ hc)
  rw [cutFirst, List.takeWhile_append_of_pos other, List.dropWhile_append_of_pos other]
  simp

/-! ### Blanks -/

variable {cs ds before after : List Char}

/-- `Trimmed cs ds` says that there is nothing around `ds` in `cs` but blanks, and that there is no
blank at an end of `ds`. -/
structure Trimmed (cs ds : List Char) : Prop where
  around : ∃ before after, cs = before ++ ds ++ after ∧ (∀ c ∈ before, isBlank c = true) ∧
    ∀ c ∈ after, isBlank c = true
  head : ∀ c ∈ ds.head?, isBlank c = false
  last : ∀ c ∈ ds.getLast?, isBlank c = false

theorem trimLeft_append (h : ∀ c ∈ before, isBlank c = true) (cs : List Char) :
    trimLeft (before ++ cs) = trimLeft cs :=
  List.dropWhile_append_of_pos h

theorem trimLeft_of_head (h : ∀ c ∈ ds.head?, isBlank c = false) (after : List Char)
    (hne : ds ≠ []) : trimLeft (ds ++ after) = ds ++ after := by
  obtain ⟨d, ds, rfl⟩ := List.exists_cons_of_ne_nil hne
  exact List.dropWhile_cons_of_neg (by simp [h d rfl])

theorem trimLeft_eq_nil (h : ∀ c ∈ cs, isBlank c = true) : trimLeft cs = [] :=
  List.dropWhile_eq_nil_iff.mpr h

/-- There are only blanks in front of what is left, and it does not begin with one. -/
theorem exists_eq_append_trimLeft (cs : List Char) :
    (∃ before, cs = before ++ trimLeft cs ∧ ∀ c ∈ before, isBlank c = true) ∧
      ∀ c ∈ (trimLeft cs).head?, isBlank c = false := by
  refine ⟨⟨cs.takeWhile isBlank, List.takeWhile_append_dropWhile.symm, fun c hc =>
    List.mem_takeWhile_imp hc⟩, fun c hc => ?_⟩
  have h := List.head?_dropWhile_not isBlank cs
  rw [show cs.dropWhile isBlank = trimLeft cs from rfl, hc] at h
  simpa using h

/-- What is trimmed is what is computed. If nothing is left, the first cut takes it all; otherwise
each end is cut back to what stays. -/
theorem Trimmed.trim_eq (h : Trimmed cs ds) : trim cs = ds := by
  obtain ⟨⟨before, after, rfl, hbefore, hafter⟩, hhead, hlast⟩ := h
  have hreverse : ∀ c ∈ after.reverse, isBlank c = true := by simpa using hafter
  rw [trim, List.append_assoc, trimLeft_append hbefore]
  rcases eq_or_ne ds [] with rfl | hne
  · rw [List.nil_append, trimLeft_eq_nil hafter]
    rfl
  · rw [trimLeft_of_head hhead after hne, List.reverse_append, trimLeft_append hreverse,
      ← List.append_nil ds.reverse, trimLeft_of_head (by simpa using hlast) [] (by simpa using hne)]
    simp

/-- What is computed is trimmed. -/
theorem trimmed_trim (cs : List Char) : Trimmed cs (trim cs) := by
  obtain ⟨⟨before, hcs, hbefore⟩, hhead⟩ := exists_eq_append_trimLeft cs
  obtain ⟨⟨after, hrest, hafter⟩, hlast⟩ := exists_eq_append_trimLeft (trimLeft cs).reverse
  have hrest' : trimLeft cs = trim cs ++ after.reverse := by
    rw [trim, ← List.reverse_append, ← hrest, List.reverse_reverse]
  refine ⟨⟨before, after.reverse, ?_, hbefore, by simpa using hafter⟩, fun c hc => hhead c ?_, ?_⟩
  · rw [List.append_assoc, ← hrest']
    exact hcs
  · rw [hrest', List.head?_append, Option.mem_def.mp hc]
    rfl
  · rw [trim, List.getLast?_reverse]
    exact hlast

/-- **Trimming** has one result. -/
theorem trimmed_iff : Trimmed cs ds ↔ trim cs = ds :=
  ⟨Trimmed.trim_eq, fun h => h ▸ trimmed_trim cs⟩

end FacetQuery.Text
