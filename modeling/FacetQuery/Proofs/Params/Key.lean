import FacetQuery.Params.Key
import Mathlib.Data.List.TakeWhile

/-!
# Params — Reading keys back

`Key.read_text`: a key that is spelled out, `root[a][b]`, reads as its root and its path, as long
as no bracket closes early: the root has no `[`, and no segment has a `]`.
`Key.read_of_notMem`: a key whose last bracket does not close has no path at all.
`Key.splitsOneWay`: a text can be spelled out in at most one way, and is read so; one that cannot
is a root as a whole.
-/

namespace FacetQuery.Params

/-- A segment ends at its bracket. -/
theorem segments?_segment {segment : List Char} (h : ']' ∉ segment) (current rest : List Char) :
    segments? (some current) (segment ++ ']' :: rest)
      = (segments? none rest).map ((current.reverse ++ segment) :: ·) := by
  induction segment generalizing current with
  | nil => rw [List.nil_append, segments?, if_pos rfl, List.append_nil]
  | cons c cs ih =>
      simp only [List.mem_cons, not_or] at h
      rw [List.cons_append, segments?, if_neg (Ne.symm h.1), ih h.2, List.reverse_cons,
        List.append_assoc, List.singleton_append]

/-- Brackets one behind the other are read as the path in them. -/
theorem segments?_path {path : List (List Char)} (h : ∀ segment ∈ path, ']' ∉ segment) :
    segments? none (path.flatMap fun segment => '[' :: (segment ++ [']'])) = some path := by
  induction path with
  | nil => rfl
  | cons segment path ih =>
      obtain ⟨hs, hp⟩ := List.forall_mem_cons.mp h
      rw [List.flatMap_cons, List.cons_append, List.append_assoc, List.singleton_append, segments?,
        if_pos rfl, segments?_segment hs, ih hp]
      rfl

/-- **A key that is spelled out** reads as it was. -/
theorem Key.read_text {k : Key} (hroot : k.root ≠ []) (hopen : '[' ∉ k.root)
    (hclose : ∀ segment ∈ k.path, ']' ∉ segment) : read k.text = k := by
  obtain ⟨root, path⟩ := k
  have other : ∀ c ∈ root, decide (c ≠ '[') = true := fun c hc =>
    decide_eq_true fun e => hopen (e ▸ hc)
  -- The first bracket is the one behind the root.
  have take : (text ⟨root, path⟩).takeWhile (· ≠ '[') = root := by
    rw [text, List.takeWhile_append_of_pos other]
    cases path <;> simp
  have drop : (text ⟨root, path⟩).dropWhile (· ≠ '[')
      = path.flatMap fun segment => '[' :: (segment ++ [']']) := by
    rw [text, List.dropWhile_append_of_pos other]
    cases path <;> simp
  rw [read, take, drop, segments?_path hclose]
  cases root with
  | nil => exact absurd rfl hroot
  | cons c cs => rfl

/-- A bracket that is open at the end of the key never closes. -/
theorem segments?_some_of_notMem {cs : List Char} (h : ']' ∉ cs) (current : List Char) :
    segments? (some current) cs = none := by
  induction cs generalizing current with
  | nil => rfl
  | cons c cs ih =>
      rw [List.mem_cons, not_or] at h
      rw [segments?, if_neg (Ne.symm h.1), ih h.2]

/-- Whatever stands before it, inside of a bracket or not. -/
theorem segments?_append_of_notMem {after : List Char} (h : ']' ∉ after)
    (current : Option (List Char)) (before : List Char) :
    segments? current (before ++ '[' :: after) = none := by
  induction before generalizing current with
  | nil =>
      cases current with
      | none => exact segments?_some_of_notMem h []
      | some current => exact segments?_some_of_notMem h ('[' :: current)
  | cons c before ih =>
      cases current with
      | none =>
          rw [List.cons_append, segments?]
          split
          · exact ih (some [])
          · rfl
      | some current =>
          rw [List.cons_append, segments?]
          split
          · rw [ih none]
            rfl
          · exact ih (some (c :: current))

/-- **A key whose last bracket does not close** is a root as a whole. -/
theorem Key.read_of_notMem {after : List Char} (h : ']' ∉ after) (before : List Char) :
    read (before ++ '[' :: after) = ⟨before ++ '[' :: after, []⟩ := by
  have hdrop : ∃ before', (before ++ '[' :: after).dropWhile (· ≠ '[')
      = before' ++ '[' :: after := by
    rw [List.dropWhile_append]
    split
    · exact ⟨[], by simp⟩
    · exact ⟨_, rfl⟩
  obtain ⟨before', hdrop⟩ := hdrop
  rw [read, hdrop, segments?_append_of_notMem h]
  generalize (before ++ '[' :: after).takeWhile (· ≠ '[') = root
  cases root <;> rfl

/-! ### Every key -/

/-- What has been read of an open bracket goes on up to the first `]`, and then come the others. -/
theorem segments?_some_eq_some {current cs : List Char} {path : List (List Char)}
    (h : segments? (some current) cs = some path) :
    ∃ segment rest path', ']' ∉ segment ∧ cs = segment ++ ']' :: rest ∧
      segments? none rest = some path' ∧ path = (current.reverse ++ segment) :: path' := by
  induction cs generalizing current with
  | nil => cases h
  | cons c cs ih =>
      rw [segments?] at h
      split at h
      · next hclose =>
          obtain ⟨path', hpath', rfl⟩ := Option.map_eq_some_iff.mp h
          exact ⟨[], cs, path', List.not_mem_nil, by rw [hclose]; rfl, hpath', by simp⟩
      · next hclose =>
          obtain ⟨segment, rest, path', hsegment, rfl, hrest, rfl⟩ := ih h
          exact ⟨c :: segment, rest, path', List.not_mem_cons_of_ne_of_not_mem (Ne.symm hclose)
            hsegment, rfl, hrest, by simp⟩

/-- Brackets that make up a text are the text. -/
theorem segments?_eq_some_iff {cs : List Char} {path : List (List Char)} :
    segments? none cs = some path ↔
      (∀ segment ∈ path, ']' ∉ segment) ∧
        (path.flatMap fun segment => '[' :: (segment ++ [']'])) = cs := by
  constructor
  · intro h
    induction path generalizing cs with
    | nil =>
        cases cs with
        | nil => exact ⟨nofun, rfl⟩
        | cons c cs =>
            rw [segments?] at h
            split at h
            · obtain ⟨_, _, _, _, _, _, hpath⟩ := segments?_some_eq_some h
              cases hpath
            · cases h
    | cons segment path ih =>
        cases cs with
        | nil => cases h
        | cons c cs =>
            -- What follows a segment is nothing or an open bracket, and nothing else is a path.
            rw [segments?] at h
            split at h
            · next hopen =>
                obtain ⟨segment, rest, path', hsegment, rfl, hrest, hpath⟩ :=
                  segments?_some_eq_some h
                cases hpath
                obtain ⟨hall, hrest⟩ := ih hrest
                refine ⟨List.forall_mem_cons.mpr ⟨hsegment, hall⟩, ?_⟩
                rw [List.flatMap_cons, hrest, hopen]
                simp
            · cases h
  · rintro ⟨h, rfl⟩
    exact segments?_path h

namespace Key

/-- `Bracketed k`: the key `k` has a root and a path, and its brackets open and close where they are
spelled out: no `[` stands in the root, and no `]` in a segment. -/
structure Bracketed (k : Key) : Prop where
  root_ne_nil : k.root ≠ []
  opening : '[' ∉ k.root
  path_ne_nil : k.path ≠ []
  closing : ∀ segment ∈ k.path, ']' ∉ segment

/-- `Splits cs k`: the text `cs` is the key `k` spelled out, or `k` has `cs` for its root because no
key is spelled so. -/
inductive Splits (cs : List Char) : Key → Prop
  | bracketed {k : Key} : k.Bracketed → k.text = cs → Splits cs k
  | whole : (∀ k : Key, k.Bracketed → k.text ≠ cs) → Splits cs ⟨cs, []⟩

theorem Bracketed.read_text {k : Key} (h : k.Bracketed) : read k.text = k :=
  Key.read_text h.root_ne_nil h.opening h.closing

/-- A text that spells out no key with a path is a root as a whole. -/
theorem read_of_forall_ne {cs : List Char} (h : ∀ k : Key, k.Bracketed → k.text ≠ cs) :
    read cs = ⟨cs, []⟩ := by
  unfold read
  split
  · rfl
  · next path hpath hne =>
      obtain ⟨hclosing, hdrop⟩ := segments?_eq_some_iff.mp hpath
      have htext : text ⟨cs.takeWhile (· ≠ '['), path⟩ = cs := by
        rw [text, hdrop, List.takeWhile_append_dropWhile]
      have hopen : '[' ∉ cs.takeWhile (· ≠ '[') := fun hmem => by
        simpa using List.mem_takeWhile_imp hmem
      cases path with
      | nil => exact congrArg (Key.mk · []) ((List.append_nil _).symm.trans htext)
      | cons segment path =>
          exact absurd htext (h _ ⟨hne, hopen, List.cons_ne_nil _ _, hclosing⟩)
  · rfl

/-- **What is read is a way to split the text**: the key that it spells out, or the text as a root.
-/
theorem splits_read (cs : List Char) : Splits cs (read cs) := by
  by_cases h : ∃ k : Key, k.Bracketed ∧ k.text = cs
  · obtain ⟨k, hk, rfl⟩ := h
    rw [hk.read_text]
    exact .bracketed hk rfl
  · have hne : ∀ k : Key, k.Bracketed → k.text ≠ cs := fun k hk hkcs => h ⟨k, hk, hkcs⟩
    rw [read_of_forall_ne hne]
    exact .whole hne

/-- **Every text splits in one way**, and is read so: as the one key that it spells out, or as a
root as a whole. What is read is always spelled out by the text. -/
theorem splitsOneWay (cs : List Char) :
    (∀ k, Splits cs k ↔ read cs = k) ∧
      (∀ k l : Key, k.Bracketed → l.Bracketed → k.text = cs → l.text = cs → k = l) ∧
      (read cs).text = cs := by
  refine ⟨fun k => ⟨fun h => ?_, fun h => h ▸ splits_read cs⟩, fun k l hk hl hkcs hlcs => ?_, ?_⟩
  · cases h with
    | bracketed hk hkcs => rw [← hkcs, hk.read_text]
    | whole h => exact read_of_forall_ne h
  · rw [← hk.read_text, ← hl.read_text, hkcs, hlcs]
  · generalize hread : read cs = k
    cases hread ▸ splits_read cs with
    | bracketed _ h => exact h
    | whole _ => exact List.append_nil cs

/-- A bracket that opens inside of a segment belongs to it; text behind the last one spoils all. -/
example :
    read "a[b[c][]".toList = ⟨"a".toList, ["b[c".toList, []]⟩ ∧
      read "a[b]c".toList = ⟨"a[b]c".toList, []⟩ := by
  decide

end Key

/-- A key has a root, unless it is empty. -/
theorem Key.root_read_ne_nil {cs : List Char} (h : cs ≠ []) : (read cs).root ≠ [] := by
  unfold read
  split
  · exact h
  · next _ hroot => exact hroot
  · exact h

end FacetQuery.Params
