import FacetQuery.Proofs.Json.Reader.Ensures
import FacetQuery.Schema.File

/-!
# Schema — What a schema that has been read is like

* `Schema.Accepted`: the default filter repeats no key and is nested no deeper than the reader
  follows, and the page size and number are at least one.
* `Schema.accepted_of_read`, `Schema.accepted_of_ofContent`: every schema that a text or a file gives
  is so.
-/

namespace FacetQuery

open Json Json.Reader

variable {n : Nat}

/-- Whatever schema is read has these properties. -/
structure Schema.Accepted (s : Schema) : Prop where
  /-- The default filter stands inside two other objects. -/
  filter : Sound 125 (.object s.filter.default)
  size : 1 ≤ s.page.defaultSize
  number : 1 ≤ s.page.defaultNumber

/-- What holds of a part that is there and of its default holds of the part as it is completed. -/
theorem of_getD {α : Type} {P : α → Prop} {o : Option α} {d : α} (ho : ∀ a ∈ o, P a) (hd : P d) :
    P (o.getD d) := by
  cases o with
  | none => exact hd
  | some a => exact ho a rfl

/-- A default filter that is read repeats no key, and is nested as deep as the levels that are left
for it. -/
theorem ensures_filterReader :
    Ensures (filterReader (n + 2)) fun s => Sound (n + 1) (.object s.default) := by
  have hcomplete (s : FilterParts) (hs : ∀ d ∈ s.default, Sound (n + 1) (.object d)) :
      Ensures (pure s.complete) fun s => Sound (n + 1) (.object s.default) :=
    .pure (of_getD (P := fun d => Sound (n + 1) (.object d)) hs soundMembers_nil.object)
  refine ensures_record (I := fun s => ∀ d ∈ s.default, Sound (n + 1) (.object d)) (by simp)
    (fun inner hinner => ?_) hcomplete hcomplete _
  cases hinner
  simp only [FilterParts.slots, List.forall_mem_cons]
  refine ⟨fun s hs => ?_, fun s hs => ?_, fun s hs => ?_, nofun⟩
  · exact .after fun _ => .pure hs
  · exact .after fun _ => .pure hs
  · exact (ensures_map (n + 1)).bind fun d hd => .pure fun d' hd' => by cases hd'; exact hd

/-- The page size and number that are read are at least one, and so are their defaults. -/
theorem ensures_pageReader (levels : Nat) :
    Ensures (pageReader levels) fun s => 1 ≤ s.defaultSize ∧ 1 ≤ s.defaultNumber := by
  have hcomplete (s : PageParts)
      (hs : (∀ k ∈ s.defaultSize, 1 ≤ k) ∧ ∀ k ∈ s.defaultNumber, 1 ≤ k) :
      Ensures (pure s.complete) fun s => 1 ≤ s.defaultSize ∧ 1 ≤ s.defaultNumber :=
    .pure ⟨of_getD hs.1 (by decide), of_getD hs.2 (by decide)⟩
  refine ensures_record (I := fun s => (∀ k ∈ s.defaultSize, 1 ≤ k) ∧ ∀ k ∈ s.defaultNumber, 1 ≤ k)
    (by simp) (fun inner _ => ?_) hcomplete hcomplete _
  simp only [PageParts.slots, List.forall_mem_cons]
  refine ⟨fun s hs => ?_, fun s hs => ?_, fun s hs => ?_, nofun⟩
  · exact .after fun _ => .pure hs
  · exact ensures_positive.bind fun k hk => .pure ⟨fun k' hk' => by cases hk'; exact hk, hs.2⟩
  · exact ensures_positive.bind fun k hk => .pure ⟨hs.1, fun k' hk' => by cases hk'; exact hk⟩

/-- **Every schema that is read** is accepted, part by part: a part that is missing is the standard
one, which is accepted as well. -/
theorem ensures_schemaReader : Ensures (schemaReader 127) Schema.Accepted := by
  have hcomplete (s : SchemaParts)
      (hs : (∀ f ∈ s.filter, Sound 125 (.object f.default)) ∧
        ∀ p ∈ s.page, 1 ≤ p.defaultSize ∧ 1 ≤ p.defaultNumber) :
      Ensures (pure s.complete) Schema.Accepted := by
    have hfilter : Sound 125 (.object s.complete.filter.default) :=
      of_getD (P := fun f : FilterSchema => Sound 125 (.object f.default)) hs.1
        soundMembers_nil.object
    have hpage : 1 ≤ s.complete.page.defaultSize ∧ 1 ≤ s.complete.page.defaultNumber :=
      of_getD (P := fun p : PageSchema => 1 ≤ p.defaultSize ∧ 1 ≤ p.defaultNumber) hs.2 (by decide)
    exact .pure ⟨hfilter, hpage.1, hpage.2⟩
  refine ensures_record (I := fun s => (∀ f ∈ s.filter, Sound 125 (.object f.default)) ∧
      ∀ p ∈ s.page, 1 ≤ p.defaultSize ∧ 1 ≤ p.defaultNumber) (by simp) (fun inner hinner => ?_)
    hcomplete hcomplete _
  cases hinner
  simp only [SchemaParts.slots, List.forall_mem_cons]
  refine ⟨fun s hs => ?_, fun s hs => ?_, fun s hs => ?_, nofun⟩
  · exact ensures_filterReader.bind fun f hf => .pure ⟨fun f' hf' => by cases hf'; exact hf, hs.2⟩
  · exact .after fun _ => .pure hs
  · exact (ensures_pageReader _).bind fun p hp => .pure ⟨hs.1, fun p' hp' => by cases hp'; exact hp⟩

/-- **Every schema that a text gives** is accepted, since it is what the reader of schemas is done
with. -/
theorem Schema.accepted_of_read {text : String} {s : Schema} (h : read text = .ok s) :
    s.Accepted := by
  obtain ⟨c, c', hs, -⟩ := run_eq_ok_iff.mp h
  exact ensures_schemaReader hs

/-- Every schema that a file gives is accepted. A file that cannot be read, or that is no text,
gives none. -/
theorem Schema.accepted_of_ofContent {path : String} {content : FileContent} {s : Schema}
    (h : ofContent path content = .ok s) : s.Accepted := by
  cases content with
  | unreadable _ => cases h
  | bytes data =>
      rw [ofContent] at h
      split at h
      · cases h
      · next text _ =>
          cases hs : read text with
          | error _ => rw [hs] at h; cases h
          | ok s' =>
              rw [hs] at h
              cases h
              exact accepted_of_read hs

end FacetQuery
