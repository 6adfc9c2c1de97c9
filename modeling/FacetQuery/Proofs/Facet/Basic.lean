import FacetQuery.Proofs.Outcome
import FacetQuery.Session

/-!
# Facet — What a run does

* `Facet.run_of_check`, `Facet.run_of_check_error`: a facet that is switched on is applied if its
  parameters pass, and else does nothing but refuse them.
* `Facet.run_ok_iff`: a facet runs with success if it is switched off, and then changes nothing, or
  if it passes its check and its parameters can be applied.
* `Facet.run_error_iff`: it fails if it does not pass, and then changes nothing, or if it passes and
  its parameters cannot be applied.
* `Request.query_ok_iff`: a request is turned into a query by three such runs.
-/

namespace FacetQuery

variable {β : Type}

namespace Facet

variable {f : Facet} {b : Backend β} {r : Request} {q q' : β}

theorem validate_of_isEnabled {v : Validator} (h : f.isEnabled r.schema = true) :
    f.validate v r = f.check v r := by
  rw [validate, if_pos h]

/-- Parameters that pass are applied. -/
theorem run_of_check (hon : f.isEnabled r.schema = true) (hc : f.check b.validator r = .ok ()) :
    f.run b r = f.apply b (f.entries r) := by
  rw [run, validate_of_isEnabled hon, hc, flat, if_pos hon, if_pos hon]
  rfl

/-- Parameters that do not pass are refused, and the backend is not called. -/
theorem run_of_check_error {e : Refusal} (hon : f.isEnabled r.schema = true)
    (hc : f.check b.validator r = .error e) : f.run b r = Build.ofExcept (.error e) := by
  rw [run, validate_of_isEnabled hon, hc]
  rfl

/-- A run refuses and changes nothing, is switched off, or applies what has passed. Which of these
it is does not depend on the query. -/
theorem run_eq (f : Facet) (b : Backend β) (r : Request) (q : β) :
    (f.run b r).run q = match f.validate b.validator r with
      | .error e => (.error e, q)
      | .ok ()   =>
          if f.isEnabled r.schema then (f.apply b (f.entries r)).run q else (.ok (), q) := by
  rw [run, Build.run_bind, Build.run_ofExcept]
  rcases f.validate b.validator r with e | ⟨⟩
  · rfl
  · unfold flat
    cases f.isEnabled r.schema <;> rfl

/-- **A run that succeeds**: switched off it changes nothing, else the parameters pass and are
applied. -/
theorem run_ok_iff :
    (f.run b r).run q = (.ok (), q') ↔
      f.isEnabled r.schema = false ∧ q' = q ∨
      f.isEnabled r.schema = true ∧ f.check b.validator r = .ok () ∧
        (f.apply b (f.entries r)).run q = (.ok (), q') := by
  rw [run_eq, validate]
  cases f.isEnabled r.schema with
  | false => simp [eq_comm]
  | true  => rcases f.check b.validator r with e | ⟨⟩ <;> simp

/-- A run that fails has refused the parameters, or a backend has refused to apply them. -/
theorem run_error_iff {e : Refusal} :
    (f.run b r).run q = (.error e, q') ↔
      f.validate b.validator r = .error e ∧ q' = q ∨
      f.isEnabled r.schema = true ∧ f.check b.validator r = .ok () ∧
        (f.apply b (f.entries r)).run q = (.error e, q') := by
  rw [run_eq, validate]
  cases f.isEnabled r.schema with
  | false => simp
  | true  => rcases f.check b.validator r with e | ⟨⟩ <;> simp [eq_comm]

end Facet

/-- **A request is turned into a query** by three runs, one on what the other leaves: filter, sort
and page, as far as none is refused. -/
theorem Request.query_ok_iff {r : Request} {b : Backend β} {start q : β} :
    r.query b start = .ok q ↔
      ∃ q₁ q₂, (Facet.filter.run b r).run start = (.ok (), q₁) ∧
        (Facet.sort.run b r).run q₁ = (.ok (), q₂) ∧ (Facet.page.run b r).run q₂ = (.ok (), q) := by
  have hb : r.query b start = .ok q ↔ (r.build b).run start = (.ok (), q) := by
    unfold Request.query
    rcases (r.build b).run start with ⟨e | ⟨⟩, q'⟩
    · simp
    · simp
  rw [hb, Request.build]
  simp only [Build.run_bind_ok]
  constructor
  · rintro ⟨⟨⟩, q₁, h₁, ⟨⟩, q₂, h₂, h₃⟩
    exact ⟨q₁, q₂, h₁, h₂, h₃⟩
  · rintro ⟨q₁, q₂, h₁, h₂, h₃⟩
    exact ⟨(), q₁, h₁, (), q₂, h₂, h₃⟩

end FacetQuery
