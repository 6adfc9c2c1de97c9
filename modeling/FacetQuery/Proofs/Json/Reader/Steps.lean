import FacetQuery.Json.Reader.Typed
import Mathlib.Data.List.Basic

/-!
# Json — Reader — Steps that are done

What a reader that ends with a value has done, step by step.

* `Reader.bind_eq_done_iff`: one reader after another; `Reader.token_bind`, `Reader.peek_bind`, …
  are the steps that never fail.
* `Reader.word_eq_done_iff`, `Reader.closeList_eq_done_iff`, `Reader.hasItem_eq_false_iff`, …: the
  fixed words and the brackets and commas between items and members.
* `Reader.Items`, `Reader.Members`: the loops without the bound on their length; `items_eq_done_iff`
  and `members_eq_done_iff` say that the bound is all that is left out.
-/

namespace FacetQuery.Json

namespace Cursor

@[simp] theorem pastBlanks_pastBlanks (c : Cursor) : c.pastBlanks.pastBlanks = c.pastBlanks := by
  have stop : ∀ cs : List Char, (cs.dropWhile isBlank).dropWhile isBlank = cs.dropWhile isBlank ∧
      (cs.dropWhile isBlank).takeWhile isBlank = [] := by
    intro cs
    induction cs with
    | nil => exact ⟨rfl, rfl⟩
    | cons x xs ih =>
        rw [List.dropWhile_cons]
        split
        · exact ih
        · next h => exact ⟨List.dropWhile_cons_of_neg h, List.takeWhile_cons_of_neg h⟩
  simp only [pastBlanks, stop, Position.pastAll, List.foldl_nil]

end Cursor

namespace Reader

variable {α β σ : Type}

/-! ### One step after another -/

/-- **One reader after another** is done just in case both are, the second one from where the first
one has stopped. Everything below is taken apart by this. -/
theorem bind_eq_done_iff {r : Reader α} {f : α → Reader β} {c c' : Cursor} {b : β} :
    (r >>= f) c = .done b c' ↔ ∃ a c₁, r c = .done a c₁ ∧ f a c₁ = .done b c' := by
  simp only [bind]
  cases r c with
  | done a c₁ =>
      simp only [Step.done.injEq]
      exact ⟨fun h => ⟨a, c₁, ⟨rfl, rfl⟩, h⟩, by rintro ⟨_, _, ⟨rfl, rfl⟩, h⟩; exact h⟩
  | broken _ _ => simp
  | misfit _ _ => simp

theorem pure_eq_done_iff {a b : α} {c c' : Cursor} :
    (pure a : Reader α) c = .done b c' ↔ a = b ∧ c = c' := by
  simp

theorem pure_bind_eq_done_iff {a : α} {f : α → Reader β} {c c' : Cursor} {b : β} :
    (pure a >>= f) c = .done b c' ↔ f a c = .done b c' := Iff.rfl

/-- A token, a character ahead, a character taken and the number of characters left: none of these
steps ever fails, so a reader that begins with one goes on with what it finds. -/
theorem token_bind (f : Option Char → Reader β) (c : Cursor) :
    (token >>= f) c = f c.pastBlanks.rest.head? c.pastBlanks := rfl

theorem peek_bind (f : Option Char → Reader β) (c : Cursor) :
    (peek >>= f) c = f c.rest.head? c := rfl

theorem eat_bind (f : Unit → Reader β) (c : Cursor) : (eat >>= f) c = f () c.advance := rfl

theorem remaining_bind (f : Nat → Reader β) (c : Cursor) :
    (remaining >>= f) c = f c.rest.length c := rfl

@[simp] theorem eat_apply (c : Cursor) : eat c = .done () c.advance := rfl

@[simp] theorem here_ne_done {f : Fault} {a : α} {c c' : Cursor} :
    (here f : Reader α) c ≠ .done a c' := nofun

@[simp] theorem ahead_ne_done {f : Fault} {a : α} {c c' : Cursor} :
    (ahead f : Reader α) c ≠ .done a c' := nofun

/-- What is between brackets is done if the body is and the bracket closes behind it. A body that
fails at once may still be closed, but it does not become one that is done. -/
theorem enclosed_eq_done_iff {body : Reader α} {close : Reader Unit} {past : Cursor → Cursor}
    {a : α} {c c' : Cursor} :
    enclosed body close past c = .done a c' ↔
      ∃ c₁, body c = .done a c₁ ∧ close c₁ = .done () c' := by
  unfold enclosed
  rcases body c with ⟨b, c₁⟩ | _ | _
  · simp only [Step.done.injEq]
    -- The body is done, so it is left to the bracket.
    rcases hclose : close c₁ with ⟨_, c₂⟩ | _ | _
    · constructor
      · intro h
        cases h
        exact ⟨c₁, ⟨rfl, rfl⟩, hclose⟩
      · rintro ⟨_, ⟨rfl, rfl⟩, h⟩
        cases hclose.symm.trans h
        rfl
    all_goals
      constructor
      · intro h; cases h
      · rintro ⟨_, ⟨rfl, rfl⟩, h⟩
        cases hclose.symm.trans h
  · simp
  · simp

/-! ### Words and brackets -/

/-- A fixed word stands at the front of the text, and the place moves past it. -/
theorem word_eq_done_iff {w : List Char} {c c' : Cursor} :
    word w c = .done () c' ↔
      ∃ rest, c.rest = w ++ rest ∧ c' = ⟨rest, c.position.pastAll w⟩ := by
  induction w generalizing c with
  | nil =>
      simp only [word, pure_eq_done_iff, List.nil_append, true_and, Position.pastAll,
        List.foldl_nil]
      constructor
      · rintro rfl; exact ⟨_, rfl, rfl⟩
      · rintro ⟨_, rfl, h⟩; exact h.symm
  | cons x w ih =>
      obtain ⟨cs, p⟩ := c
      rw [word, peek_bind]
      cases cs with
      | nil => simp
      | cons y cs =>
          simp only [List.head?_cons]
          by_cases h : y = x
          · subst h
            rw [if_pos rfl, eat_bind, ih]
            simp [Cursor.advance, Position.pastAll]
          · simp [h]

/-- The bracket of a list closes behind blanks. A comma before it is an error of its own, and so
nothing that is done. -/
theorem closeList_eq_done_iff {c c' : Cursor} :
    closeList c = .done () c' ↔
      c.pastBlanks.rest.head? = some ']' ∧ c' = c.pastBlanks.advance := by
  rw [closeList, token_bind]
  rcases c.pastBlanks.rest.head? with _ | x
  · simp
  · by_cases hclose : x = ']'
    · subst hclose
      simp [eq_comm]
    · by_cases hcomma : x = ','
      · subst hcomma
        simp only [eat_bind, token_bind]
        rcases c.pastBlanks.advance.pastBlanks.rest.head? with _ | y
        · simp
        · by_cases hy : y = ']'
          · subst hy
            simp
          · simp [hy]
      · simp [hclose]

/-- The bracket of an object closes in the same way. -/
theorem closeObject_eq_done_iff {c c' : Cursor} :
    closeObject c = .done () c' ↔
      c.pastBlanks.rest.head? = some '\x7d' ∧ c' = c.pastBlanks.advance := by
  rw [closeObject, token_bind]
  rcases c.pastBlanks.rest.head? with _ | x
  · simp
  · by_cases hclose : x = '\x7d'
    · subst hclose
      simp [eq_comm]
    · by_cases hcomma : x = ','
      · subst hcomma
        simp
      · simp [hclose]

/-- Behind a key stands a colon, with blanks before it. -/
theorem colon_eq_done_iff {c c' : Cursor} :
    colon c = .done () c' ↔
      c.pastBlanks.rest.head? = some ':' ∧ c' = c.pastBlanks.advance := by
  rw [colon, token_bind]
  rcases c.pastBlanks.rest.head? with _ | x
  · simp
  · by_cases hcolon : x = ':'
    · subst hcolon
      simp [eq_comm]
    · simp [hcolon]

/-- A list ends where its bracket closes. -/
theorem hasItem_eq_false_iff {first : Bool} {c c' : Cursor} :
    hasItem first c = .done false c' ↔
      c.pastBlanks.rest.head? = some ']' ∧ c' = c.pastBlanks := by
  rw [hasItem, token_bind]
  rcases c.pastBlanks.rest.head? with _ | x
  · simp
  · by_cases hclose : x = ']'
    · subst hclose
      simp [eq_comm]
    · cases first with
      | true => simp [hclose]
      | false =>
          by_cases hcomma : x = ','
          · subst hcomma
            simp only [Bool.false_eq_true, if_false, if_true, eat_bind, token_bind]
            rcases c.pastBlanks.advance.pastBlanks.rest.head? with _ | y
            · simp
            · by_cases hy : y = ']'
              · subst hy
                simp
              · simp
          · simp [hclose, hcomma]

/-- An item is next: the first one at once, the others behind a comma. -/
theorem hasItem_eq_true_iff {first : Bool} {c c' : Cursor} :
    hasItem first c = .done true c' ↔
      if first then c.pastBlanks = c' ∧ ∃ x, c'.rest.head? = some x ∧ x ≠ ']'
      else c.pastBlanks.rest.head? = some ',' ∧ c.pastBlanks.advance.pastBlanks = c' ∧
        ∃ x, c'.rest.head? = some x ∧ x ≠ ']' := by
  rw [hasItem, token_bind]
  rcases hx : c.pastBlanks.rest.head? with _ | x
  · cases first
    · simp
    · simp only [here_ne_done, if_true, false_iff, not_and]
      rintro rfl
      simp [hx]
  · by_cases hclose : x = ']'
    · subst hclose
      cases first
      · simp
      · simp only [pure_eq_done_iff, if_true, Bool.false_eq_true, false_and, false_iff, not_and]
        rintro rfl
        simp [hx]
    · cases first with
      | true =>
          simp only [if_true, pure_eq_done_iff, true_and]
          exact ⟨by rintro rfl; exact ⟨rfl, x, hx, hclose⟩, fun h => h.1⟩
      | false =>
          by_cases hcomma : x = ','
          · subst hcomma
            simp only [Bool.false_eq_true, if_false, if_true, eat_bind, token_bind, true_and]
            -- Behind the comma an item must stand, so the bracket may not close here.
            rcases hy : c.pastBlanks.advance.pastBlanks.rest.head? with _ | y
            · simp only [here_ne_done, false_iff, not_and]
              rintro rfl
              simp [hy]
            · by_cases hyc : y = ']'
              · subst hyc
                simp only [ahead_ne_done, false_iff, not_and]
                rintro rfl
                simp [hy]
              · simp only [pure_eq_done_iff, true_and]
                exact ⟨by rintro rfl; exact ⟨rfl, y, hy, hyc⟩, fun h => h.1⟩
          · simp [hcomma]

/-- What must follow where a member is due: a key. -/
private theorem keyDue_eq_done_iff {x : Option Char} {b : Bool} {c c' : Cursor} :
    (match x with
      | some '"' => pure true
      | some '\x7d' => ahead .trailingComma
      | some _ => ahead .keyNotString
      | none => here .endInValue : Reader Bool) c = .done b c' ↔
      x = some '"' ∧ b = true ∧ c = c' := by
  rcases x with _ | x
  · simp
  · by_cases hquote : x = '"'
    · subst hquote
      simp [eq_comm]
    · by_cases hclose : x = '\x7d'
      · subst hclose
        simp
      · simp [hquote]

/-- An object goes on with a key, the first one at once and the others behind a comma, or it ends
where its bracket closes. -/
theorem hasMember_eq_done_iff {first more : Bool} {c c' : Cursor} :
    hasMember first c = .done more c' ↔
      if more then
        if first then c.pastBlanks = c' ∧ c'.rest.head? = some '"'
        else c.pastBlanks.rest.head? = some ',' ∧ c.pastBlanks.advance.pastBlanks = c' ∧
          c'.rest.head? = some '"'
      else c.pastBlanks.rest.head? = some '\x7d' ∧ c.pastBlanks = c' := by
  rw [hasMember, token_bind]
  rcases hx : c.pastBlanks.rest.head? with _ | x
  · cases more <;> cases first
    · simp
    · simp
    · simp
    · simp only [here_ne_done, if_true, false_iff, not_and]
      rintro rfl
      simp [hx]
  · -- The brace that closes is tried before everything else.
    by_cases hclose : x = '\x7d'
    · subst hclose
      cases more <;> cases first
      · simp
      · simp
      · simp
      · simp only [pure_eq_done_iff, if_true, Bool.false_eq_true, false_and, false_iff, not_and]
        rintro rfl
        simp [hx]
    · have hends : some x ≠ some '\x7d' := fun h => hclose (Option.some.inj h)
      cases first
      · -- Behind a member a comma must stand, and then a key: a comma never ends an object.
        by_cases hcomma : x = ','
        · subst hcomma
          simp only [Bool.false_eq_true, if_false, if_true, eat_bind, token_bind]
          refine keyDue_eq_done_iff.trans ?_
          cases more
          · simp
          · simp only [if_true, true_and]
            exact ⟨by rintro ⟨h, rfl⟩; exact ⟨rfl, h⟩, by rintro ⟨rfl, h⟩; exact ⟨h, rfl⟩⟩
        · simp only [Bool.false_eq_true, if_false, hcomma]
          refine bind_eq_done_iff.trans ?_
          simp [hends, hcomma]
      · simp only [if_true]
        -- The first member needs no comma.
        refine (pure_bind_eq_done_iff).trans (keyDue_eq_done_iff.trans ?_)
        cases more
        · simp [hends]
        · simp only [if_true, true_and]
          exact ⟨by rintro ⟨h, rfl⟩; exact ⟨rfl, hx.trans h⟩,
            by rintro ⟨rfl, h⟩; exact ⟨hx.symm.trans h, rfl⟩⟩

/-! ### Loops -/

/-- `Items item first c as c'`: from `c` on stand the items `as`, up to the bracket at `c'`. -/
inductive Items (item : Reader α) : Bool → Cursor → List α → Cursor → Prop
  | nil {first : Bool} {c c' : Cursor} : hasItem first c = .done false c' → Items item first c [] c'
  | cons {first : Bool} {c c₁ c₂ c' : Cursor} {a : α} {as : List α} :
      hasItem first c = .done true c₁ → item c₁ = .done a c₂ → Items item false c₂ as c' →
      Items item first c (a :: as) c'

/-- **The loop over items** is the relation, if there are fewer items than the bound allows. The
bound is what is left of the text, which always suffices. -/
theorem items_eq_done_iff {item : Reader α} {first : Bool} {n : Nat} {c c' : Cursor} {as : List α} :
    items item first n c = .done as c' ↔ as.length < n ∧ Items item first c as c' := by
  induction n generalizing first c as with
  | zero => simp [items]
  | succ n ih =>
      rw [items, bind_eq_done_iff]
      constructor
      · rintro ⟨more, c₁, hmore, h⟩
        cases more with
        | false =>
            obtain ⟨rfl, rfl⟩ := pure_eq_done_iff.mp h
            exact ⟨Nat.succ_pos n, .nil hmore⟩
        | true =>
            obtain ⟨a, c₂, ha, h⟩ := bind_eq_done_iff.mp h
            obtain ⟨as', c₃, has, h⟩ := bind_eq_done_iff.mp h
            obtain ⟨rfl, rfl⟩ := pure_eq_done_iff.mp h
            obtain ⟨hlt, has⟩ := ih.mp has
            exact ⟨Nat.succ_lt_succ hlt, .cons hmore ha has⟩
      · rintro ⟨hlt, h⟩
        cases h with
        | nil hmore => exact ⟨false, _, hmore, rfl⟩
        | cons hmore ha has =>
            refine ⟨true, _, hmore, bind_eq_done_iff.mpr ⟨_, _, ha, ?_⟩⟩
            refine bind_eq_done_iff.mpr ⟨_, _, ?_, rfl⟩
            exact ih.mpr ⟨Nat.lt_of_succ_lt_succ hlt, has⟩

/-- `Members member s first c n s' c'`: from `c` on stand `n` members, up to the bracket at `c'`,
and they take the state `s` to `s'`. -/
inductive Members (member : String → σ → Reader σ) :
    σ → Bool → Cursor → Nat → σ → Cursor → Prop
  | nil {s : σ} {first : Bool} {c c' : Cursor} :
      hasMember first c = .done false c' → Members member s first c 0 s c'
  | cons {s s₁ s' : σ} {first : Bool} {c c₁ c₂ c₃ c' : Cursor} {k : String} {n : Nat} :
      hasMember first c = .done true c₁ → key c₁ = .done k c₂ → member k s c₂ = .done s₁ c₃ →
      Members member s₁ false c₃ n s' c' → Members member s first c (n + 1) s' c'

/-- **The loop over members** is the relation as well, with the number of members below the bound.
-/
theorem members_eq_done_iff {member : String → σ → Reader σ} {s s' : σ} {first : Bool} {n : Nat}
    {c c' : Cursor} :
    members member s first n c = .done s' c' ↔ ∃ m < n, Members member s first c m s' c' := by
  induction n generalizing s first c with
  | zero => simp [members]
  | succ n ih =>
      rw [members, bind_eq_done_iff]
      constructor
      · rintro ⟨more, c₁, hmore, h⟩
        cases more with
        | false =>
            obtain ⟨rfl, rfl⟩ := pure_eq_done_iff.mp h
            -- One step sees that there are no more.
            exact ⟨0, Nat.succ_pos n, .nil hmore⟩
        | true =>
            obtain ⟨k, c₂, hk, h⟩ := bind_eq_done_iff.mp h
            obtain ⟨s₁, c₃, hs, h⟩ := bind_eq_done_iff.mp h
            obtain ⟨m, hm, h⟩ := ih.mp h
            exact ⟨m + 1, Nat.succ_lt_succ hm, .cons hmore hk hs h⟩
      · rintro ⟨m, hm, h⟩
        cases h with
        | nil hmore => exact ⟨false, _, hmore, rfl⟩
        | cons hmore hk hs h =>
            refine ⟨true, _, hmore, bind_eq_done_iff.mpr ⟨_, _, hk, ?_⟩⟩
            refine bind_eq_done_iff.mpr ⟨_, _, hs, ?_⟩
            exact ih.mpr ⟨_, Nat.lt_of_succ_lt_succ hm, h⟩

/-! ### Kinds of values -/

/-- How a value stands at `c` that is neither a list nor an object. -/
inductive Scalar (c : Cursor) : Value → Cursor → Prop
  | null {c' : Cursor} : word ['n', 'u', 'l', 'l'] c.pastBlanks = .done () c' → Scalar c .null c'
  | true {c' : Cursor} :
      word ['t', 'r', 'u', 'e'] c.pastBlanks = .done () c' → Scalar c (.bool true) c'
  | false {c' : Cursor} :
      word ['f', 'a', 'l', 's', 'e'] c.pastBlanks = .done () c' → Scalar c (.bool false) c'
  | string {s : String} {c' : Cursor} : c.pastBlanks.rest.head? = some '"' →
      quotedRest c.pastBlanks.advance = .done s c' → Scalar c (.string s) c'
  | number {x : Char} {n : Number} {c' : Cursor} : c.pastBlanks.rest.head? = some x →
      isNumberStart x = Bool.true → number c.pastBlanks = .done n c' → Scalar c (.number n) c'

/-- A word begins with its first character, by which it has been told from other values. -/
theorem head?_of_word {x : Char} {w : List Char} {c c' : Cursor}
    (h : word (x :: w) c = .done () c') : c.rest.head? = some x := by
  obtain ⟨rest, hrest, -⟩ := word_eq_done_iff.mp h
  rw [hrest]
  rfl

theorem word_then_eq_done_iff {w : List Char} {a v : Value} {c c' : Cursor} :
    (do word w; pure a : Reader Value) c = .done v c' ↔ word w c = .done () c' ∧ v = a := by
  rw [bind_eq_done_iff]
  constructor
  · rintro ⟨⟨⟩, c₁, hw, ⟨⟩⟩
    exact ⟨hw, rfl⟩
  · rintro ⟨hw, rfl⟩
    exact ⟨(), c', hw, rfl⟩

/-- **A value that is no list and no object** is told by its first character, and read by the one
reader for this character. -/
theorem scalar_eq_done_iff {v : Value} {c c' : Cursor} :
    scalar c = .done v c' ↔ Scalar c v c' := by
  rw [scalar, token_bind]
  constructor
  · intro h
    rcases hx : c.pastBlanks.rest.head? with _ | x
    · simp [hx] at h
    · rw [hx] at h
      -- The reader looks at one character after another, so the cases come in its order.
      by_cases hn : x = 'n'
      · subst hn
        obtain ⟨hw, rfl⟩ := word_then_eq_done_iff.mp h
        exact .null hw
      by_cases ht : x = 't'
      · subst ht
        obtain ⟨hw, rfl⟩ := word_then_eq_done_iff.mp h
        exact .true hw
      by_cases hf : x = 'f'
      · subst hf
        obtain ⟨hw, rfl⟩ := word_then_eq_done_iff.mp h
        exact .false hw
      by_cases hq : x = '"'
      · subst hq
        obtain ⟨⟨⟩, c₀, heat, h⟩ := bind_eq_done_iff.mp h
        cases heat
        obtain ⟨s, c₁, hs, hv⟩ := bind_eq_done_iff.mp h
        cases hv
        exact .string hx hs
      · simp only at h
        by_cases hd : isNumberStart x = Bool.true
        · rw [if_pos hd] at h
          obtain ⟨n, c₁, hn, hv⟩ := bind_eq_done_iff.mp h
          cases hv
          exact .number hx hd hn
        · rw [if_neg hd] at h
          cases h
  · intro h
    cases h with
    | null h =>
        rw [head?_of_word h]
        exact word_then_eq_done_iff.mpr ⟨h, rfl⟩
    | true h =>
        rw [head?_of_word h]
        exact word_then_eq_done_iff.mpr ⟨h, rfl⟩
    | false h =>
        rw [head?_of_word h]
        exact word_then_eq_done_iff.mpr ⟨h, rfl⟩
    | string hx h =>
        rw [hx]
        exact (eat_bind _ _).trans (bind_eq_done_iff.mpr ⟨_, _, h, rfl⟩)
    | @number x n c' hx hd h =>
        -- A character that begins a number is none of those that are looked at before.
        have ne : ∀ y, isNumberStart y = Bool.false → x ≠ y := by
          rintro y hy rfl
          cases hd.symm.trans hy
        have hn := ne 'n' (by decide)
        have ht := ne 't' (by decide)
        have hf := ne 'f' (by decide)
        have hq := ne '"' (by decide)
        rw [hx]
        simp only [hd, if_true]
        exact bind_eq_done_iff.mpr ⟨_, _, h, rfl⟩

/-- A list that is not too deep holds items up to its bracket, fewer of them than there are
characters. -/
theorem listOf_eq_done_iff {inner : Nat} {item : Nat → Reader α} {c c' : Cursor} {as : List α} :
    listOf (inner + 1) item c = .done as c' ↔
      as.length < c.rest.length ∧
        ∃ c₁, Items (item inner) true c.advance as c₁ ∧ closeList c₁ = .done () c' := by
  rw [listOf, remaining_bind, inList, eat_bind, enclosed_eq_done_iff]
  simp only [items_eq_done_iff, and_assoc, exists_and_left]

/-- An object that is not too deep holds members up to its bracket, which take the first state to
the last one. -/
theorem objectOf_eq_done_iff {inner : Nat} {member : Nat → String → σ → Reader σ} {s s' : σ}
    {c c' : Cursor} :
    objectOf (inner + 1) member s c = .done s' c' ↔
      ∃ c₁, (∃ n < c.rest.length, Members (member inner) s true c.advance n s' c₁) ∧
        closeObject c₁ = .done () c' := by
  rw [objectOf, remaining_bind, inObject, eat_bind, enclosed_eq_done_iff]
  simp only [members_eq_done_iff]

/-! ### Whole texts -/

/-- **A whole text** is read if a reader is done with it and nothing but blanks is left. -/
theorem run_eq_ok_iff {r : Reader α} {text : String} {a : α} :
    r.run text = .ok a ↔
      ∃ c c', r (.ofText text) = .done a c ∧ atEnd c = .done () c' := by
  unfold run
  constructor
  · intro h
    split at h
    · next b c' hdone =>
        cases h
        obtain ⟨b, c, hr, hdone⟩ := bind_eq_done_iff.mp hdone
        obtain ⟨⟨⟩, c₁, hend, hdone⟩ := bind_eq_done_iff.mp hdone
        cases hdone
        exact ⟨c, c', hr, hend⟩
    · cases h
    · cases h
  · rintro ⟨c, c', hr, hend⟩
    have hdone : (do let a ← r; atEnd; pure a : Reader α) (.ofText text) = .done a c' :=
      bind_eq_done_iff.mpr ⟨a, c, hr, bind_eq_done_iff.mpr ⟨(), c', hend, rfl⟩⟩
    rw [hdone]

end Reader

end FacetQuery.Json
