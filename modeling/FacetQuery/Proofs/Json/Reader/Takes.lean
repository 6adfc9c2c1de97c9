import FacetQuery.Proofs.Decimal.Layout
import FacetQuery.Proofs.Json.Reader.Skip

/-!
# Json — Reader — What is taken, and what stands around it

A reader takes characters from the front of a text, and what comes behind them has a say in where it
stops: a number goes on as long as it can.

* `Reader.Takes`: a reader takes some characters, wherever they stand.
* `Reader.Blank`, `Reader.Leads`, `Reader.Follows`: what may stand between tokens, how a value
  begins, and what may stand behind one.
-/

namespace FacetQuery.Json.Reader

variable {α β : Type}

/-- `Takes r cs a rest`: in front of `rest`, `r` takes `cs` for `a`. -/
def Takes (r : Reader α) (cs : List Char) (a : α) (rest : List Char) : Prop :=
  ∀ p, ∃ p', r ⟨cs ++ rest, p⟩ = .done a ⟨rest, p'⟩

namespace Takes

/-- Two readers one after another take what each of them takes. The first one must stop in front of
what the second one takes. -/
theorem bind {r : Reader α} {f : α → Reader β} {cs ds rest : List Char} {a : α} {b : β}
    (hr : Takes r cs a (ds ++ rest)) (hf : Takes (f a) ds b rest) :
    Takes (r >>= f) (cs ++ ds) b rest := by
  intro p
  obtain ⟨p₁, hr⟩ := hr p
  obtain ⟨p₂, hf⟩ := hf p₁
  exact ⟨p₂, bind_eq_done_iff.mpr ⟨a, _, by rw [List.append_assoc]; exact hr, hf⟩⟩

theorem map {r : Reader α} {cs rest : List Char} {a : α} (h : Takes r cs a rest) (f : α → β) :
    Takes (do return f (← r)) cs (f a) rest := by
  intro p
  obtain ⟨p', h⟩ := h p
  exact ⟨p', bind_eq_done_iff.mpr ⟨a, _, h, rfl⟩⟩

end Takes

/-- A fixed word is taken wherever it stands. -/
theorem takes_word (w rest : List Char) : Takes (word w) w () rest :=
  fun _ => ⟨_, word_eq_done_iff.mpr ⟨rest, rfl, rfl⟩⟩

/-- Four characters of one byte each are four bytes, which is what an escape by number passes. -/
theorem pastBytes?_four {a b c d : Char} (ha : a.utf8Size = 1) (hb : b.utf8Size = 1)
    (hc : c.utf8Size = 1) (hd : d.utf8Size = 1) (p : Position) (rest : List Char) :
    ∃ p', Position.pastBytes? 4 p (a :: b :: c :: d :: rest) = some p' := by
  simp [Position.pastBytes?, ha, hb, hc, hd]

/-! ### Blanks -/

/-- `Leads cs`: the characters `cs` begin with a token, which is not the end of a list. -/
def Leads (cs : List Char) : Prop :=
  ∃ x xs, cs = x :: xs ∧ Cursor.isBlank x = false ∧ x ≠ ']'

/-- `Blank cs`: all characters of `cs` may stand between tokens. -/
def Blank (cs : List Char) : Prop :=
  ∀ c ∈ cs, Cursor.isBlank c = true

theorem blank_nil : Blank [] := nofun

/-- Blanks end at the next token, and the place moves past them and nothing else. -/
theorem pastBlanks_append {bs cs : List Char} (hbs : Blank bs)
    (hcs : ∀ x, cs.head? = some x → Cursor.isBlank x = false) (p : Position) :
    (⟨bs ++ cs, p⟩ : Cursor).pastBlanks = ⟨cs, p.pastAll bs⟩ := by
  have htake : cs.takeWhile Cursor.isBlank = [] ∧ cs.dropWhile Cursor.isBlank = cs := by
    cases cs with
    | nil => exact ⟨rfl, rfl⟩
    | cons x xs =>
        have hx : ¬ Cursor.isBlank x = true := by simp [hcs x rfl]
        exact ⟨List.takeWhile_cons_of_neg hx, List.dropWhile_cons_of_neg hx⟩
  simp only [Cursor.pastBlanks, List.dropWhile_append_of_pos hbs, List.takeWhile_append_of_pos hbs,
    htake, List.append_nil]

/-! ### What comes behind -/

/-- `Follows cs`: what comes behind a number does not go on like one. -/
def Follows (cs : List Char) : Prop :=
  ∀ x, cs.head? = some x → isNumeral x = false

/-- Behind blanks, nothing goes on like a number: no blank is part of one. -/
theorem follows_of_blank {bs cs : List Char} (hbs : Blank bs) (hcs : Follows cs) :
    Follows (bs ++ cs) := by
  have hblank : ∀ x, Cursor.isBlank x = true → isNumeral x = false := by
    intro x hx
    simp only [Cursor.isBlank, Bool.or_eq_true, decide_eq_true_eq] at hx
    rcases hx with ((rfl | rfl) | rfl) | rfl <;> rfl
  cases bs with
  | nil => exact hcs
  | cons b bs =>
      intro x hx
      cases hx
      exact hblank b (hbs b List.mem_cons_self)

/-- A character that is in no number ends a number, whatever comes behind it. -/
theorem follows_cons {x : Char} (h : isNumeral x = false) (cs : List Char) : Follows (x :: cs) := by
  intro y hy
  cases hy
  exact h

end FacetQuery.Json.Reader
