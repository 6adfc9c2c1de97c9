import FacetQuery.Session

/-!
# Session — Visits and sessions

A session visits facets one after another, and each visit may ask anything before it runs.

* `Visit.run_calls`: whatever a visit has asked before, its run is the run of the facet.
* `Step`, `Session.run`: a visit with or without a run at its end, and any number of them.
-/

namespace FacetQuery

variable {β : Type}

namespace Visit

/-- `Sound v r visit` says that what has passed in the visit does pass. -/
def Sound (v : Validator) (r : Request) (visit : Visit) : Prop :=
  visit.isValidated = true → visit.facet.validate v r = .ok ()

variable {v : Validator} {r : Request} {visit : Visit}

theorem sound_start (f : Facet) : (start f).Sound v r :=
  fun h => absurd h Bool.false_ne_true

/-- A validation says what the facet says, also where it is not repeated. -/
theorem Sound.fst_validate (h : visit.Sound v r) :
    (visit.validate v r).1 = visit.facet.validate v r := by
  unfold validate
  split
  · next hv => exact (h hv).symm
  · split <;> simp [*]

/-- A validation keeps this so: it is remembered only if it passes. -/
theorem Sound.validate (h : visit.Sound v r) :
    (visit.validate v r).2.Sound v r ∧ (visit.validate v r).2.facet = visit.facet := by
  unfold Visit.validate
  split
  · exact ⟨h, rfl⟩
  · split
    · next hok => exact ⟨fun _ => hok, rfl⟩
    · exact ⟨h, rfl⟩

/-- No question makes a visit forget its facet or take for passed what is not. -/
theorem Sound.call (h : visit.Sound v r) (c : Call) :
    (visit.call v r c).2.Sound v r ∧ (visit.call v r c).2.facet = visit.facet := by
  cases c with
  | validate => exact h.validate
  | _        => exact ⟨h, rfl⟩

/-- **Any questions** keep this so, and the facet of the visit too. Induction on the questions. -/
theorem Sound.calls (h : visit.Sound v r) (cs : List Call) :
    (visit.calls v r cs).2.Sound v r ∧ (visit.calls v r cs).2.facet = visit.facet := by
  induction cs generalizing visit with
  | nil => exact ⟨h, rfl⟩
  | cons c cs ih =>
      obtain ⟨hc, hfacet⟩ := h.call c
      obtain ⟨hcs, hfacets⟩ := ih hc
      exact ⟨hcs, hfacets.trans hfacet⟩

/-- What a sound visit runs is its facet. It validates unless it has, which then says the same. -/
theorem Sound.run (b : Backend β) (h : visit.Sound b.validator r) :
    visit.run b r = visit.facet.run b r := by
  rw [Visit.run, h.fst_validate]
  rfl

/-- **Asking changes nothing.** A visit that has asked anything still runs its facet, and what the
run says and builds is the same. -/
theorem run_calls (f : Facet) (b : Backend β) (r : Request) (cs : List Call) :
    ((start f).calls b.validator r cs).2.run b r = f.run b r := by
  obtain ⟨hsound, hfacet⟩ := (sound_start f).calls (v := b.validator) (r := r) cs
  rw [hsound.run, hfacet]
  rfl

end Visit

/-! ### Sessions -/

/-- A visit of a facet, with what it asks, and whether it runs in the end. -/
structure Session.Step where
  facet : Facet
  calls : List Call
  runs : Bool

namespace Session

/-- `take b r s built` makes the visit `s` while a query is under construction.  It says what the
run said, if there was one, and what is built then. -/
def take (b : Backend β) (r : Request) (s : Step) (built : β) :
    Option (Except Refusal Unit) × β :=
  let visit := ((Visit.start s.facet).calls b.validator r s.calls).2
  if s.runs then
    let (result, built) := (visit.run b r).run built
    (some result, built)
  else (none, built)

/-- `run b r steps built` makes one visit after another. -/
def run (b : Backend β) (r : Request) : List Step → β → List (Option (Except Refusal Unit)) × β
  | [], built         => ([], built)
  | s :: steps, built =>
      let (result, built) := take b r s built
      let (results, built) := run b r steps built
      (result :: results, built)

end Session

end FacetQuery
