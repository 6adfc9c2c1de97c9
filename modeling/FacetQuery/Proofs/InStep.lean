import FacetQuery.Proofs.Outcome

/-!
# InStep — Computations in step

Two computations go in step if they agree on what they say, up to a map, and so do the queries they
leave.

* `mapM_map`: a traversal of mapped elements, where each step only maps its result.
* `Build.Carries h m m'`: `m'` does to a query carried by `h` what `m` does to the query.
-/

namespace FacetQuery

variable {ε α β γ δ : Type}

/-! ### Plain outcomes -/

theorem map_bind (x : Except ε α) (f : α → Except ε β) (g : β → γ) :
    (x >>= f).map g = x >>= fun a => (f a).map g := by
  cases x <;> rfl

theorem bind_map (x : Except ε α) (g : α → β) (f : β → Except ε γ) :
    (x.map g >>= f) = x >>= fun a => f (g a) := by
  cases x <;> rfl

/-- Outcomes with one image are one failure, or two successes with one image. A failure is no
success, so the mixed cases are void. -/
theorem error_or_ok_of_map_eq {x y : Except ε α} {f : α → β} (h : x.map f = y.map f) :
    (∃ e, x = .error e ∧ y = .error e) ∨ ∃ a b, x = .ok a ∧ y = .ok b ∧ f a = f b := by
  rcases x with e | a
  · rcases y with e' | b
    · cases h
      exact .inl ⟨e, rfl, rfl⟩
    · cases h
  · rcases y with e | b
    · cases h
    · exact .inr ⟨a, b, rfl, rfl, Except.ok.inj h⟩

/-- **A traversal of mapped elements** whose steps only map their results is the traversal itself,
with its results mapped. It fails at the same element. -/
theorem mapM_map {f : α → Except ε β} {f' : γ → Except ε δ} {k : α → γ} {l : β → δ}
    (h : ∀ x, f' (k x) = (f x).map l) (xs : List α) :
    (xs.map k).mapM f' = (xs.mapM f).map (List.map l) := by
  induction xs with
  | nil => rfl
  | cons x xs ih =>
      rw [List.map_cons, List.mapM_cons, List.mapM_cons, h, ih, bind_map, map_bind]
      refine bind_congr fun y => ?_
      rw [bind_map, map_bind]
      rfl

namespace Build

variable {ι : Type}

/-- `Carries h m m'` says that `m'` does to every query carried by `h` what `m` does to it. -/
def Carries (h : β → γ) (m : Build β α) (m' : Build γ α) : Prop :=
  ∀ b, m'.run (h b) = ((m.run b).1, h (m.run b).2)

variable {h : β → γ}

theorem carries_pure (a : α) : Carries h (pure a) (pure a) := fun _ => rfl

theorem carries_throw (e : Refusal) : Carries h (throw e : Build β α) (throw e) := fun _ => rfl

/-- What is said without looking at the query, an outcome or a failure, is said of a carried one
too. -/
theorem carries_ofExcept (x : Except Refusal α) : Carries h (ofExcept x) (ofExcept x) :=
  fun _ => rfl

theorem carries_modify {f : β → β} {f' : γ → γ} (hf : ∀ b, f' (h b) = h (f b)) :
    Carries h (modify f) (modify f') := fun b => congrArg (Prod.mk _) (hf b)

/-- One computation after another. The second may depend on what the first says, which is the same
for both queries. -/
theorem Carries.bind {m : Build β α} {m' : Build γ α} {f : α → Build β δ} {f' : α → Build γ δ}
    (hm : Carries h m m') (hf : ∀ a, Carries h (f a) (f' a)) :
    Carries h (m >>= f) (m' >>= f') := by
  intro b
  rw [run_bind, run_bind, hm b]
  rcases m.run b with ⟨e | a, b'⟩
  · rfl
  · exact hf a b'

/-- A loop goes in step if each of its steps does. Induction on the elements. -/
theorem Carries.forM {f : ι → Build β Unit} {f' : ι → Build γ Unit}
    (hf : ∀ x, Carries h (f x) (f' x)) (xs : List ι) : Carries h (xs.forM f) (xs.forM f') := by
  induction xs with
  | nil => exact carries_pure ()
  | cons x xs ih => exact (hf x).bind fun _ => ih

theorem ofExcept_map_bind (x : Except Refusal α) (k : α → δ) (f : δ → Build β γ) :
    (ofExcept (x.map k) >>= f) = ofExcept x >>= fun a => f (k a) := by
  cases x <;> rfl

end Build

end FacetQuery
