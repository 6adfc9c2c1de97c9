import FacetQuery.Proofs.Facet.Basic
import FacetQuery.Proofs.Session.Visits

/-!
# Session — What a visit answers

A visit remembers one thing of what it has been asked: whether a validation has passed.

* `Visit.getElem?_calls`: the answer to each question, from what was asked before it.
* `Sound.isValidated_calls_iff`: when a visit counts as validated.
* `Session.Steady`: what this means for the answers and for the run; `Session.steady`: every visit
  is so.
-/

namespace FacetQuery

variable {β : Type}

namespace Visit

variable {v : Validator} {r : Request} {visit : Visit}

/-- Questions are answered one by one, each by the visit that the one before it leaves. -/
theorem calls_cons (visit : Visit) (v : Validator) (r : Request) (c : Call) (cs : List Call) :
    visit.calls v r (c :: cs) =
      ((visit.call v r c).1 :: ((visit.call v r c).2.calls v r cs).1,
        ((visit.call v r c).2.calls v r cs).2) := rfl

/-- A question is answered by the visit that has asked those before it. Induction on the questions,
for any visit to begin with. -/
theorem getElem?_calls (visit : Visit) (v : Validator) (r : Request) (cs : List Call) (i : Nat) :
    (visit.calls v r cs).1[i]? =
      cs[i]?.map fun c => ((visit.calls v r (cs.take i)).2.call v r c).1 := by
  induction cs generalizing visit i with
  | nil => rfl
  | cons c cs ih =>
      rw [calls_cons]
      cases i with
      | zero   => rfl
      | succ i =>
          rw [List.getElem?_cons_succ, List.getElem?_cons_succ, List.take_succ_cons, ih, calls_cons]

/-! ### When a visit counts as validated -/

/-- After a question for it, a visit is validated exactly if its facet passes. -/
theorem Sound.isValidated_validate_iff (h : visit.Sound v r) :
    (visit.validate v r).2.isValidated = true ↔ visit.facet.validate v r = .ok () := by
  unfold Visit.validate
  split
  · next hv => exact ⟨fun _ => h hv, fun _ => hv⟩
  · next hv =>
      split
      · next hok => exact ⟨fun _ => hok, fun _ => rfl⟩
      · next he => exact ⟨fun h => absurd h hv, fun h => nomatch he.symm.trans h⟩

/-- **One question**: a visit is validated if it was, or if the question is for it and the facet
passes. -/
theorem Sound.isValidated_call_iff (h : visit.Sound v r) (c : Call) :
    (visit.call v r c).2.isValidated = true ↔
      visit.isValidated = true ∨ c = .validate ∧ visit.facet.validate v r = .ok () := by
  cases c with
  | validate =>
      refine h.isValidated_validate_iff.trans ⟨fun hok => .inr ⟨rfl, hok⟩, ?_⟩
      rintro (hv | ⟨-, hok⟩)
      · exact h hv
      · exact hok
  | _ => exact ⟨.inl, fun hv => hv.resolve_right fun hc => nomatch hc.1⟩

/-- Nothing but a validation that passes makes a visit validated, and nothing undoes it. -/
theorem Sound.isValidated_calls_iff (h : visit.Sound v r) (cs : List Call) :
    (visit.calls v r cs).2.isValidated = true ↔
      visit.isValidated = true ∨ Call.validate ∈ cs ∧ visit.facet.validate v r = .ok () := by
  induction cs generalizing visit with
  | nil => simp [Visit.calls]
  | cons c cs ih =>
      obtain ⟨hc, hfacet⟩ := h.call c
      rw [calls_cons, ih hc, h.isValidated_call_iff, hfacet, List.mem_cons, or_assoc,
        ← or_and_right, eq_comm (a := c)]

end Visit

namespace Session

open Visit

/-- `answers f v r cs` are the answers of a visit of `f` to the questions `cs`. -/
def answers (f : Facet) (v : Validator) (r : Request) (cs : List Call) : List Answer :=
  ((start f).calls v r cs).1

/-- `Passed f v r cs i` says that before its question `i` the visit was told that a validation has
passed. -/
def Passed (f : Facet) (v : Validator) (r : Request) (cs : List Call) (i : Nat) : Prop :=
  ∃ j < i, cs[j]? = some .validate ∧ (answers f v r cs)[j]? = some (.outcome (.ok ()))

/-- `Steady f b r cs` says what a visit of `f` is that asks `cs` before it runs. -/
structure Steady (f : Facet) (b : Backend β) (r : Request) (cs : List Call) : Prop where
  /-- Asking leaves the query under construction alone. -/
  untouched : ∀ built, take b r ⟨f, cs, false⟩ built = (none, built)
  /-- All validations say the same, which is what the facet says. -/
  validations : ∀ i : Nat, cs[i]? = some .validate →
    (answers f b.validator r cs)[i]? = some (.outcome (f.validate b.validator r))
  /-- The visit is told that it is validated exactly if a validation before has passed. -/
  states : ∀ i : Nat, cs[i]? = some .isValidated → ∃ flag : Bool,
    (answers f b.validator r cs)[i]? = some (.flag flag) ∧
      (flag = true ↔ Passed f b.validator r cs i)
  /-- It runs as if it had asked nothing. -/
  runs : ∀ built, take b r ⟨f, cs, true⟩ built = take b r ⟨f, [], true⟩ built
  /-- It runs with success only if the facet passes, also where the check is not repeated. -/
  checked : ∀ built built', take b r ⟨f, cs, true⟩ built = (some (.ok ()), built') →
    f.validate b.validator r = .ok ()

variable {f : Facet} {v : Validator} {r : Request} {cs : List Call} {i : Nat}

/-- Every validation says what the facet says, whenever it is asked for. -/
theorem getElem?_answers_validate (h : cs[i]? = some .validate) :
    (answers f v r cs)[i]? = some (.outcome (f.validate v r)) := by
  obtain ⟨hsound, hfacet⟩ := (sound_start f).calls (v := v) (r := r) (cs.take i)
  rw [answers, getElem?_calls, h, Option.map_some, Visit.call]
  simp only [hsound.fst_validate, hfacet]
  rfl

/-- A validation has passed before a question if one was asked for and the facet passes. All of them
say the same, so any one will do. -/
theorem passed_iff :
    Passed f v r cs i ↔ Call.validate ∈ cs.take i ∧ f.validate v r = .ok () := by
  constructor
  · rintro ⟨j, hj, hc, ha⟩
    refine ⟨List.mem_of_getElem? ((List.getElem?_take_of_lt hj).trans hc), ?_⟩
    rw [getElem?_answers_validate hc] at ha
    exact Answer.outcome.inj (Option.some.inj ha)
  · rintro ⟨hmem, hok⟩
    obtain ⟨j, hj⟩ := List.mem_iff_getElem?.mp hmem
    rw [List.getElem?_take] at hj
    split at hj
    · next hlt => exact ⟨j, hlt, hj, by rw [getElem?_answers_validate hj, hok]⟩
    · cases hj

/-- A visit counts as validated exactly where one has passed before. -/
theorem getElem?_answers_isValidated (h : cs[i]? = some .isValidated) : ∃ flag : Bool,
    (answers f v r cs)[i]? = some (.flag flag) ∧ (flag = true ↔ Passed f v r cs i) := by
  refine ⟨((start f).calls v r (cs.take i)).2.isValidated, ?_, ?_⟩
  · rw [answers, getElem?_calls, h]
    rfl
  · rw [passed_iff, (sound_start f).isValidated_calls_iff]
    exact ⟨fun h => h.resolve_left Bool.false_ne_true, .inr⟩

/-- A visit that runs is a run of its facet, whatever it has asked. -/
theorem take_run (f : Facet) (b : Backend β) (r : Request) (cs : List Call) (built : β) :
    take b r ⟨f, cs, true⟩ built =
      (some ((f.run b r).run built).1, ((f.run b r).run built).2) := by
  rw [← run_calls f b r cs]
  rfl

/-- **Asking commits to nothing.**  Whatever a visit has asked, its validations agree, it counts as
validated exactly behind one that has passed, and it runs as one that has asked nothing. -/
theorem steady (f : Facet) (b : Backend β) (r : Request) (cs : List Call) : Steady f b r cs where
  untouched _ := rfl
  validations _ := getElem?_answers_validate
  states _ := getElem?_answers_isValidated
  runs built := by rw [take_run, take_run]
  checked built built' h := by
    rw [take_run, Facet.run_eq] at h
    rcases hv : f.validate b.validator r with e | ⟨⟩
    · rw [hv] at h
      cases h
    · rfl

end Session

end FacetQuery
