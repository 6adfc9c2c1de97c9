import FacetQuery.Backend.Basic
import Mathlib.Data.List.Forall2

/-!
# Outcome — What a success says

A computation that can be refused succeeds only where each of its parts does.

* `mapM_eq_ok_iff`: a traversal succeeds exactly with the pointwise results.
* `Build.run_bind_ok`, `Build.run_ofExcept_ok`: a success of a build, taken apart.
* `Build.run_forM_ok`: if every step of a loop that succeeds moves the query by some `y`, the loop
  moves it by all these `y` in turn.
* `Build.run_forM_error`: a loop that fails does so at one element, behind others that do not.
* `Build.run_forM_eq_ok`, `Build.fst_run_forM`: what a loop does whose steps always succeed, and
  what it says if what each step says does not depend on the query.
-/

namespace FacetQuery

variable {ε α β γ : Type}

/-! ### Plain outcomes -/

theorem bind_eq_ok_iff {x : Except ε α} {f : α → Except ε β} {b : β} :
    (x >>= f) = .ok b ↔ ∃ a, x = .ok a ∧ f a = .ok b := by
  cases x <;> simp [bind, Except.bind]

/-- A check comes first and tells nothing but that it passed. -/
theorem check_bind_eq_ok_iff {x : Except ε Unit} {f : Unit → Except ε β} {b : β} :
    (x >>= f) = .ok b ↔ x = .ok () ∧ f () = .ok b := by
  rcases x with e | ⟨⟩ <;> simp [bind, Except.bind]

theorem map_eq_ok_iff {f : α → β} {x : Except ε α} {b : β} :
    x.map f = .ok b ↔ ∃ a, x = .ok a ∧ f a = b := by
  cases x <;> simp [Except.map]

/-- A traversal succeeds exactly when it does so at every element. -/
theorem mapM_eq_ok_iff {f : α → Except ε β} {xs : List α} {ys : List β} :
    xs.mapM f = .ok ys ↔ List.Forall₂ (fun x y => f x = .ok y) xs ys := by
  induction xs generalizing ys with
  | nil => cases ys <;> simp [pure, Except.pure]
  | cons x xs ih =>
      simp only [List.mapM_cons, bind_eq_ok_iff, ih, List.forall₂_cons_left_iff]
      constructor
      · rintro ⟨y, hy, zs, hzs, h⟩
        cases h
        exact ⟨y, zs, hy, hzs, rfl⟩
      · rintro ⟨y, zs, hy, hzs, rfl⟩
        exact ⟨y, hy, zs, hzs, rfl⟩

/-- Every result of a traversal comes from some element. -/
theorem exists_left_of_mem {R : α → β → Prop} {xs : List α} {ys : List β}
    (h : List.Forall₂ R xs ys) {y : β} (hy : y ∈ ys) : ∃ x ∈ xs, R x y := by
  induction h with
  | nil => cases hy
  | @cons x _ xs _ hx _ ih =>
      rcases List.mem_cons.mp hy with rfl | hy
      · exact ⟨x, List.mem_cons_self, hx⟩
      · obtain ⟨x', hx', hr⟩ := ih hy
        exact ⟨x', List.mem_cons_of_mem x hx', hr⟩

/-- A check of every element passes exactly when each passes. -/
theorem forM_eq_ok_iff {f : α → Except ε Unit} {xs : List α} :
    xs.forM f = .ok () ↔ ∀ x ∈ xs, f x = .ok () := by
  induction xs with
  | nil => simp [List.forM, pure, Except.pure]
  | cons x xs ih =>
      rw [List.forM, check_bind_eq_ok_iff, List.forall_mem_cons]
      exact and_congr_right fun _ => ih

/-! ### Builds -/

namespace Build

/-- **A success taken apart**: the first part says something and leaves a query, from which the
second goes on. -/
theorem run_bind_ok {m : Build β α} {f : α → Build β γ} {b b' : β} {c : γ} :
    (m >>= f).run b = (.ok c, b') ↔ ∃ a b₁, m.run b = (.ok a, b₁) ∧ (f a).run b₁ = (.ok c, b') := by
  rw [run_bind]
  rcases m.run b with ⟨e | a, b₁⟩
  · simp
  · simp

theorem run_ofExcept_ok {x : Except Refusal α} {a : α} {b b' : β} :
    (ofExcept x).run b = (.ok a, b') ↔ x = .ok a ∧ b' = b := by
  simp [eq_comm]

theorem run_modify_ok {f : β → β} {b b' : β} :
    (modify f : Build β Unit).run b = (.ok (), b') ↔ b' = f b := by
  have h : (modify f : Build β Unit).run b = (.ok (), f b) := rfl
  simp [h, eq_comm]

theorem run_throw_ne_ok {e : Refusal} {a : α} {b b' : β} :
    (throw e : Build β α).run b ≠ (.ok a, b') := by
  have h : (throw e : Build β α).run b = (.error e, b) := rfl
  simp [h]

/-- **A loop that succeeds**, from its steps: where step `x` succeeds only by moving the query with
`s` along some `y` related to `x`, the loop moves it along such a `y` for every `x`, in order. -/
theorem run_forM_ok {f : α → Build β Unit} {g : α → γ → Prop} {s : β → γ → β}
    (step : ∀ x b b', (f x).run b = (.ok (), b') → ∃ y, g x y ∧ b' = s b y) {xs : List α} {b b' : β}
    (h : (xs.forM f).run b = (.ok (), b')) : ∃ ys, List.Forall₂ g xs ys ∧ b' = ys.foldl s b := by
  induction xs generalizing b with
  | nil =>
      have hb : (Except.ok (), b) = (Except.ok (), b') := h
      cases hb
      exact ⟨[], .nil, rfl⟩
  | cons x xs ih =>
      rw [List.forM] at h
      -- The first step leads to `b₁`, from where the rest of the loop starts.
      obtain ⟨⟨⟩, b₁, hx, hxs⟩ := run_bind_ok.mp h
      obtain ⟨y, hy, rfl⟩ := step x b b₁ hx
      obtain ⟨ys, hys, rfl⟩ := ih hxs
      exact ⟨y :: ys, .cons hy hys, rfl⟩

/-- **A loop that fails** succeeds up to some element, and leaves what this one leaves. -/
theorem run_forM_error {f : α → Build β Unit} {xs : List α} {e : Refusal} {b b' : β}
    (h : (xs.forM f).run b = (.error e, b')) :
    ∃ before x after b₁, xs = before ++ x :: after ∧ (before.forM f).run b = (.ok (), b₁) ∧
      (f x).run b₁ = (.error e, b') := by
  induction xs generalizing b with
  | nil => cases congrArg Prod.fst h
  | cons x xs ih =>
      rw [List.forM, run_bind] at h
      rcases hx : (f x).run b with ⟨e' | ⟨⟩, b₁⟩
      · rw [hx] at h
        exact ⟨[], x, xs, b, rfl, rfl, hx.trans h⟩
      · rw [hx] at h
        obtain ⟨before, y, after, b₂, rfl, hbefore, hy⟩ := ih h
        refine ⟨x :: before, y, after, b₂, rfl, ?_, hy⟩
        rw [List.forM, run_bind, hx]
        exact hbefore

/-- A loop whose steps always succeed. -/
theorem run_forM_eq_ok {f : α → Build β Unit} {s : β → α → β}
    (step : ∀ x b, (f x).run b = (.ok (), s b x)) (xs : List α) (b : β) :
    (xs.forM f).run b = (.ok (), xs.foldl s b) := by
  induction xs generalizing b with
  | nil => rfl
  | cons x xs ih =>
      rw [List.forM, run_bind, step]
      exact ih (s b x)

/-- **What a loop says** if step `x` says `g x`, whatever has been built before. -/
theorem fst_run_forM {f : α → Build β Unit} {g : α → Except Refusal Unit} {xs : List α}
    (step : ∀ x ∈ xs, ∀ b, ((f x).run b).1 = g x) (b : β) :
    ((xs.forM f).run b).1 = xs.forM g := by
  induction xs generalizing b with
  | nil => rfl
  | cons x xs ih =>
      obtain ⟨hx, hxs⟩ := List.forall_mem_cons.mp step
      rw [List.forM, List.forM, run_bind, ← hx b]
      rcases (f x).run b with ⟨e | ⟨⟩, b₁⟩
      · rfl
      · exact ih hxs b₁

end Build

end FacetQuery
