import FacetQuery.Proofs.Outcome

/-!
# First — The first element of a kind

A traversal that stops at the first failure is decided by one element, and those behind it do not
count.

* `First P xs x`: the element `x` is the first of `xs` of which `P` holds.
* `first_map_iff`: the first image of a kind is the image of the first element of that kind.
* `find?_eq_some_iff_first`: a search finds the first element of its kind.
* `mapM_eq_error_iff`, `forM_eq_error_iff`: a traversal fails as the first element does that fails.
-/

namespace FacetQuery

variable {ε α β : Type}

/-- `First P xs x` says that `x` is the first element of `xs` of which `P` holds. -/
inductive First (P : α → Prop) : List α → α → Prop where
  | here {x : α} {xs : List α} : P x → First P (x :: xs) x
  | later {x y : α} {xs : List α} : ¬ P y → First P xs x → First P (y :: xs) x

variable {P Q : α → Prop} {x y : α} {xs : List α}

theorem First.holds (h : First P xs x) : P x := by
  induction h with
  | here hx => exact hx
  | later _ _ ih => exact ih

theorem First.mem (h : First P xs x) : x ∈ xs := by
  induction h with
  | here _ => exact List.mem_cons_self
  | later _ _ ih => exact List.mem_cons_of_mem _ ih

theorem not_first_nil : ¬ First P [] x :=
  nofun

/-- The head is the first if it is of the kind; otherwise the first is the one behind it. -/
theorem first_cons_iff : First P (y :: xs) x ↔ P y ∧ x = y ∨ ¬ P y ∧ First P xs x := by
  constructor
  · intro h
    cases h with
    | here hx => exact .inl ⟨hx, rfl⟩
    | later hy h => exact .inr ⟨hy, h⟩
  · rintro (⟨hy, rfl⟩ | ⟨hy, h⟩)
    · exact .here hy
    · exact .later hy h

/-- There is a first element of a kind as soon as there is any. -/
theorem exists_first_iff : (∃ x, First P xs x) ↔ ∃ x ∈ xs, P x := by
  induction xs with
  | nil => simp [not_first_nil]
  | cons y xs ih =>
      by_cases hy : P y
      · exact ⟨fun _ => ⟨y, List.mem_cons_self, hy⟩, fun _ => ⟨y, .here hy⟩⟩
      · simp only [first_cons_iff, hy, false_and, false_or, not_false_eq_true, true_and, ih,
          List.mem_cons, exists_eq_or_imp]

theorem First.congr (h : First P xs x) (hPQ : ∀ y ∈ xs, P y ↔ Q y) : First Q xs x := by
  induction h with
  | here hx => exact .here ((hPQ _ List.mem_cons_self).mp hx)
  | later hy _ ih =>
      exact .later (mt (hPQ _ List.mem_cons_self).mpr hy)
        (ih fun z hz => hPQ z (List.mem_cons_of_mem _ hz))

/-- **The first image of a kind** is the image of the first element whose image is of that kind. -/
theorem first_map_iff {f : β → α} {ys : List β} :
    First P (ys.map f) x ↔ ∃ y, First (fun y => P (f y)) ys y ∧ x = f y := by
  induction ys with
  | nil => simp [not_first_nil]
  | cons z ys ih =>
      rw [List.map_cons, first_cons_iff, ih]
      simp only [first_cons_iff]
      constructor
      · rintro (⟨hz, rfl⟩ | ⟨hz, y, hy, rfl⟩)
        · exact ⟨z, .inl ⟨hz, rfl⟩, rfl⟩
        · exact ⟨y, .inr ⟨hz, hy⟩, rfl⟩
      · rintro ⟨y, ⟨hz, rfl⟩ | ⟨hz, hy⟩, rfl⟩
        · exact .inl ⟨hz, rfl⟩
        · exact .inr ⟨hz, y, hy, rfl⟩

/-- **A search** finds the first element that passes the test, and none if there is none. -/
theorem find?_eq_some_iff_first {p : α → Bool} :
    xs.find? p = some x ↔ First (fun x => p x = true) xs x := by
  induction xs with
  | nil => simp [not_first_nil]
  | cons y xs ih =>
      rw [first_cons_iff, List.find?_cons, ← ih]
      cases p y <;> simp [eq_comm]

/-! ### Traversals that fail -/

theorem bind_eq_error_iff {x : Except ε α} {f : α → Except ε β} {e : ε} :
    (x >>= f) = .error e ↔ x = .error e ∨ ∃ a, x = .ok a ∧ f a = .error e := by
  cases x <;> simp [bind, Except.bind]

/-- `Fails f x` says that `f` fails at `x`. -/
def Fails (f : α → Except ε β) (x : α) : Prop := ∃ e, f x = .error e

theorem not_fails_iff {f : α → Except ε Unit} : ¬ Fails f x ↔ f x = .ok () := by
  rw [Fails]
  rcases f x with e | ⟨⟩
  · simp
  · simp

/-- **A traversal that fails** does so as its first element that fails. Induction on the elements:
one that does not fail is passed over. -/
theorem mapM_eq_error_iff {f : α → Except ε β} {e : ε} :
    xs.mapM f = .error e ↔ ∃ x, First (Fails f) xs x ∧ f x = .error e := by
  induction xs with
  | nil => simp [not_first_nil, pure, Except.pure]
  | cons y xs ih =>
      rw [List.mapM_cons, bind_eq_error_iff]
      simp only [first_cons_iff]
      constructor
      · rintro (hy | ⟨b, hy, h⟩)
        · exact ⟨y, .inl ⟨⟨e, hy⟩, rfl⟩, hy⟩
        · rcases bind_eq_error_iff.mp h with h | ⟨bs, -, h⟩
          · obtain ⟨x, hx, he⟩ := ih.mp h
            refine ⟨x, .inr ⟨?_, hx⟩, he⟩
            rintro ⟨e', hy'⟩
            cases hy.symm.trans hy'
          · cases h
      · rintro ⟨x, ⟨-, rfl⟩ | ⟨hy, hx⟩, he⟩
        · exact .inl he
        · cases hb : f y with
          | error e' => exact (hy ⟨e', hb⟩).elim
          | ok b => exact .inr ⟨b, rfl, bind_eq_error_iff.mpr (.inl (ih.mpr ⟨x, hx, he⟩))⟩

/-- **A check of every element** fails as the first element does that fails. The same as for a
traversal that collects results, which are empty here. -/
theorem forM_eq_error_iff {f : α → Except ε Unit} {e : ε} :
    xs.forM f = .error e ↔ ∃ x, First (Fails f) xs x ∧ f x = .error e := by
  have hmapM : xs.forM f = (xs.mapM f >>= fun _ => .ok ()) := by
    induction xs with
    | nil => rfl
    | cons y xs ih =>
        rw [List.forM, List.mapM_cons, ih]
        cases f y with
        | error e => rfl
        | ok _ => cases xs.mapM f <;> rfl
  rw [hmapM, bind_eq_error_iff, ← mapM_eq_error_iff]
  simp

end FacetQuery
