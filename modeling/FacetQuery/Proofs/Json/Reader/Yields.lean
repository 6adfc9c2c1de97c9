import FacetQuery.Proofs.Json.Grammar
import FacetQuery.Proofs.Json.Reader.Ensures

/-!
# Json — Reader — What a reader makes of a text

Of a text whose grammar is known, a reader makes one thing wherever it stands: a value and the rest
of the text, or nothing.

* `Reader.Yields`: what a reader makes of some characters, at any place; closed under `bind`.
* `Reader.yields_quotedRest`, `Reader.yields_number`: strings and numbers, in every spelling.
* `Reader.yields_hasItem_first`, `Reader.yields_hasMember_first`, …: commas and brackets.
-/

namespace FacetQuery.Json

variable {α β : Type}

/-- `outcome step` is what was read and what is left of the text, if anything was read. -/
def Step.outcome : Step α → Option (α × List Char)
  | .done a c   => some (a, c.rest)
  | .broken _ _ => none
  | .misfit _ _ => none

namespace Reader

/-- `Yields r cs x rest`: wherever the characters `cs` stand, `r` reads `x` of them and leaves
`rest`, or is not done if `x` is missing. -/
def Yields (r : Reader α) (cs : List Char) (x : Option α) (rest : List Char) : Prop :=
  ∀ p, (r ⟨cs, p⟩).outcome = x.map (·, rest)

/-- The place where a reader stops does not count, only what is left of the text. -/
theorem outcome_eq_some_iff {step : Step α} {a : α} {rest : List Char} :
    step.outcome = some (a, rest) ↔ ∃ p, step = .done a ⟨rest, p⟩ := by
  cases step with
  | done b c =>
      simp only [Step.outcome, Option.some.injEq, Prod.mk.injEq, Step.done.injEq]
      constructor
      · rintro ⟨rfl, rfl⟩
        exact ⟨c.position, rfl, rfl⟩
      · rintro ⟨p, rfl, rfl⟩
        exact ⟨rfl, rfl⟩
  | broken _ _ => simp [Step.outcome]
  | misfit _ _ => simp [Step.outcome]

/-- Neither does the error, where nothing is read. -/
theorem outcome_eq_none_iff {step : Step α} : step.outcome = none ↔ ∀ a c, step ≠ .done a c := by
  cases step <;> simp [Step.outcome]

/-- What is read of a text in front of a rest. -/
theorem yields_some_iff {r : Reader α} {t rest : List Char} {a : α} :
    Yields r (t ++ rest) (some a) rest ↔ Takes r t a rest :=
  forall_congr' fun _ => outcome_eq_some_iff

/-- Nothing is read of a text in which the reader is not done, wherever it stands. -/
theorem yields_none_iff {r : Reader α} {cs rest : List Char} :
    Yields r cs none rest ↔ ∀ p a c, r ⟨cs, p⟩ ≠ .done a c :=
  forall_congr' fun _ => outcome_eq_none_iff

namespace Yields

variable {r : Reader α} {f : α → Reader β} {cs ds rest : List Char} {a : α} {x : Option α}

theorem pure (a : α) (cs : List Char) : Yields (pure a) cs (some a) cs := fun _ => rfl

theorem here (fault : Fault) : Yields (here fault : Reader α) cs none rest := fun _ => rfl

theorem ahead (fault : Fault) : Yields (ahead fault : Reader α) cs none rest := fun _ => rfl

theorem unfit (fault : Fault) : Yields (unfit fault : Reader α) cs none rest := fun _ => rfl

/-- **One reader after another** makes what the second one makes of the result of the first, in
front of what the first one has left. -/
theorem bind {y : α → Option β} (hr : Yields r cs x ds)
    (hf : ∀ a, x = some a → Yields (f a) ds (y a) rest) :
    Yields (r >>= f) cs (x.bind y) rest := by
  intro p
  have hr := hr p
  cases x with
  | none =>
      rw [Option.bind_none]
      refine outcome_eq_none_iff.mpr fun b c hb => ?_
      obtain ⟨a, c₁, ha, -⟩ := bind_eq_done_iff.mp hb
      exact outcome_eq_none_iff.mp hr a c₁ ha
  | some a =>
      obtain ⟨p', ha⟩ := outcome_eq_some_iff.mp hr
      rw [bind_done ha]
      exact hf a rfl p'

/-- Reading on behind what is read. -/
theorem andThen {y : Option β} (hr : Yields r cs (some a) ds) (hf : Yields (f a) ds y rest) :
    Yields (r >>= f) cs y rest :=
  bind (y := fun _ => y) hr fun _ h => Option.some.inj h ▸ hf

/-- Nothing is read behind what is not. -/
theorem stop (hr : Yields r cs none rest) : Yields (r >>= f) cs none rest :=
  bind (y := fun _ => none) hr nofun

/-- What is read can be changed afterwards. -/
theorem map (hr : Yields r cs x rest) (f : α → β) :
    Yields (do return f (← r)) cs (x.map f) rest := by
  rw [Option.map_eq_bind]
  exact hr.bind fun a _ => pure (f a) rest

/-- What is left of nothing does not matter. -/
theorem of_none (hr : Yields r cs none ds) : Yields r cs none rest := hr

end Yields

variable {r : Reader α} {bs cs rest : List Char} {x : Option α} {c : Char}

/-- A reader that is never done makes nothing of any text, and so does every error. -/
theorem yields_of_ensures (h : Ensures r fun _ => False) : Yields r cs none rest :=
  yields_none_iff.mpr fun _ _ _ hdone => (h hdone).elim

theorem yields_wrongKind (expected : String) :
    Yields (wrongKind expected : Reader α) cs none rest :=
  yields_of_ensures (ensures_wrongKind expected _)

/-! ### Single characters -/

/-- The next character is seen and left where it is. -/
theorem yields_peek {f : Option Char → Reader α} (h : Yields (f cs.head?) cs x rest) :
    Yields (peek >>= f) cs x rest := h

/-- A character that is there is taken. -/
theorem yields_eat {f : Unit → Reader α} (h : Yields (f ()) cs x rest) :
    Yields (eat >>= f) (c :: cs) x rest := fun p => h (p.past c)

theorem yields_remaining {f : Nat → Reader α} (h : Yields (f cs.length) cs x rest) :
    Yields (remaining >>= f) cs x rest := h

/-- Blanks are passed over, up to the next token. -/
theorem yields_token {f : Option Char → Reader α} (hbs : Blank bs) (hc : Cursor.isBlank c = false)
    (h : Yields (f (some c)) (c :: cs) x rest) : Yields (token >>= f) (bs ++ c :: cs) x rest := by
  intro p
  rw [token_bind, pastBlanks_append hbs (by rintro _ ⟨⟩; exact hc)]
  exact h _

/-- Behind the last blanks there is no token. -/
theorem yields_token_nil {f : Option Char → Reader α} (hbs : Blank bs)
    (h : Yields (f none) [] x rest) : Yields (token >>= f) bs x rest := by
  intro p
  have hend := @pastBlanks_append bs [] hbs nofun p
  rw [List.append_nil] at hend
  rw [token_bind, hend]
  exact h _

theorem yields_word (w rest : List Char) : Yields (word w) (w ++ rest) (some ()) rest :=
  yields_some_iff.mpr (takes_word w rest)

/-! ### Strings -/

/-- A hexadecimal digit is a single byte, as the reader of escapes counts bytes. -/
theorem utf8Size_of_hexDigit? {c : Char} {n : Nat} (h : Text.hexDigit? c = some n) :
    c.utf8Size = 1 := by
  have hle : c.toNat ≤ 0x7F := by
    unfold Text.hexDigit? at h
    split at h
    · next hc => exact Nat.le_trans hc.2 (by decide)
    · split at h
      · next hc => exact Nat.le_trans hc.2 (by decide)
      · split at h
        · next hc => exact Nat.le_trans hc.2 (by decide)
        · cases h
  rw [Char.utf8Size_eq_one_iff]
  exact hle

theorem utf8Size_of_foldl {ds : List Char} {o : Option Nat} {n : Nat}
    (h : ds.foldl (fun n c => do return 16 * (← n) + (← Text.hexDigit? c)) o = some n) :
    o.isSome ∧ ∀ c ∈ ds, c.utf8Size = 1 := by
  induction ds generalizing o with
  | nil => exact ⟨Option.isSome_of_eq_some h, nofun⟩
  | cons d ds ih =>
      obtain ⟨hsome, hds⟩ := ih h
      cases o with
      | none => cases hsome
      | some m =>
          cases hd : Text.hexDigit? d with
          | none =>
              simp only [hd] at hsome
              cases hsome
          | some k => exact ⟨rfl, List.forall_mem_cons.mpr ⟨utf8Size_of_hexDigit? hd, hds⟩⟩

/-- Hexadecimal digits are single bytes. -/
theorem utf8Size_of_hexValue? {ds : List Char} {n : Nat} (h : hexValue? ds = some n) :
    ∀ c ∈ ds, c.utf8Size = 1 :=
  (utf8Size_of_foldl h).2

/-- **Four hexadecimal digits** are read as their number, in either case of the letters. -/
theorem yields_hex4 {ds : List Char} {n : Nat} (hds : ds.length = 4) (h : hexValue? ds = some n)
    (rest : List Char) : Yields hex4 (ds ++ rest) (some n) rest := by
  refine yields_some_iff.mpr fun p => ?_
  obtain ⟨a, b, c, d, rfl⟩ := List.length_eq_four.mp hds
  have hsize := utf8Size_of_hexValue? h
  simp only [List.forall_mem_cons] at hsize
  obtain ⟨ha, hb, hc, hd, -⟩ := hsize
  obtain ⟨p', hp⟩ := pastBytes?_four ha hb hc hd p rest
  refine ⟨p', ?_⟩
  simp only [List.cons_append, List.nil_append, hex4, hp, List.take_succ_cons, List.take_zero, h,
    List.drop_succ_cons, List.drop_zero]

theorem takes_hex4 {ds : List Char} {n : Nat} (hds : ds.length = 4) (h : hexValue? ds = some n)
    (rest : List Char) : Takes hex4 ds n rest :=
  yields_some_iff.mp (yields_hex4 hds h rest)

/-- What a unit of a string is for a reader of escapes: it is passed, whatever it stands for. -/
theorem takes_passedCharacter {t : List Char} {u : StringUnit} (h : SpellsUnit t u)
    (rest : List Char) : ∃ c, Takes passedCharacter t (some c) rest := by
  cases h with
  | plain hquote hback hcontrol =>
      exact ⟨_, fun _ => ⟨_, passedCharacter_eq_done_iff.mpr (.plain rfl hquote hback hcontrol)⟩⟩
  | simple hs => exact ⟨_, fun _ => ⟨_, passedCharacter_eq_done_iff.mpr (.simple rfl rfl hs)⟩⟩
  | code hds hn =>
      refine ⟨' ', fun p => ?_⟩
      obtain ⟨p', hp⟩ := takes_hex4 hds hn rest ((p.past '\\').past 'u')
      exact ⟨p', passedCharacter_eq_done_iff.mpr (.unicode rfl rfl
        (bind_eq_done_iff.mpr ⟨_, _, hp, rfl⟩))⟩

/-- The units of a string are passed one after another. Their number bounds the steps that this
takes. -/
theorem exists_takes_passed {t : List Char} {us : List StringUnit} (h : SpellsUnits t us) {n : Nat}
    (hn : us.length < n) (rest : List Char) :
    ∃ cs, Takes (characters passedCharacter n) t cs rest := by
  induction h generalizing n with
  | close =>
      obtain ⟨n, rfl⟩ := Nat.exists_eq_add_one_of_ne_zero (Nat.ne_zero_of_lt hn)
      exact ⟨[], fun _ => ⟨_, characters_succ_eq_done_iff.mpr
        (.inl ⟨passedCharacter_eq_done_iff.mpr (.close rfl), rfl⟩)⟩⟩
  | @cons t ts u us hu _ ih =>
      obtain ⟨n, rfl⟩ := Nat.exists_eq_add_one_of_ne_zero (Nat.ne_zero_of_lt hn)
      obtain ⟨cs, hcs⟩ := ih (Nat.lt_of_succ_lt_succ hn)
      obtain ⟨c, hc⟩ := takes_passedCharacter hu (ts ++ rest)
      refine ⟨c :: cs, fun p => ?_⟩
      obtain ⟨p₁, hc⟩ := hc p
      obtain ⟨p₂, hcs⟩ := hcs p₁
      rw [List.append_assoc]
      exact ⟨p₂, characters_succ_eq_done_iff.mpr (.inr ⟨c, _, cs, hc, hcs, rfl⟩)⟩

/-- A string is skipped, also one that is no row of characters. -/
theorem yields_skipQuotedRest {t : List Char} {s : Option String} (h : SpellsString t s)
    (rest : List Char) : Yields skipQuotedRest (t ++ rest) (some ()) rest := by
  obtain ⟨us, hus, -⟩ := h
  have hlt := hus.length_lt
  obtain ⟨cs, hcs⟩ := exists_takes_passed hus (n := (t ++ rest).length + 1)
    (by rw [List.length_append]; omega) rest
  exact yields_remaining ((yields_some_iff.mpr hcs).andThen (.pure () rest))

/-- How many units a pair takes. -/
theorem decode_pair {a b : Nat} (ha : isLeading a = true) (hb : isTrailing b = true)
    (us : List StringUnit) :
    StringUnit.decode (.half a :: .half b :: us) =
      (StringUnit.decode us).map (Char.ofNat (pairValue a b) :: ·) := by
  rw [StringUnit.decode, ha, hb]
  rfl

/-- A number that stands for a character is no half of a pair. -/
theorem ofCode_eq_char {n : Nat} {c : Char} (h : StringUnit.ofCode n = .char c) :
    isLeading n = false ∧ isTrailing n = false ∧ Char.ofNat n = c := by
  unfold StringUnit.ofCode at h
  split at h
  · cases h
  · next hn =>
      rw [Bool.or_eq_true, not_or, Bool.not_eq_true, Bool.not_eq_true] at hn
      cases h
      exact ⟨hn.1, hn.2, rfl⟩

/-- A number that stands for a half is the first one or the second one. -/
theorem ofCode_eq_half {n m : Nat} (h : StringUnit.ofCode n = .half m) :
    n = m ∧ (isLeading n = true ∨ isTrailing n = true) := by
  unfold StringUnit.ofCode at h
  split at h
  · next hn =>
      cases h
      exact ⟨rfl, by rwa [Bool.or_eq_true] at hn⟩
  · cases h

/-- A unit that is a character is kept. -/
theorem takes_keptCharacter {t : List Char} {c : Char} (h : SpellsUnit t (.char c))
    (rest : List Char) : Takes keptCharacter t (some c) rest := by
  generalize hu : StringUnit.char c = u at h
  cases h with
  | plain hquote hback hcontrol =>
      cases hu
      exact fun _ => ⟨_, keptCharacter_eq_done_iff.mpr (.plain rfl hquote hback hcontrol)⟩
  | simple hs =>
      cases hu
      exact fun _ => ⟨_, keptCharacter_eq_done_iff.mpr (.simple rfl rfl hs)⟩
  | code hds hn =>
      obtain ⟨hleading, htrailing, hc⟩ := ofCode_eq_char hu.symm
      intro p
      obtain ⟨p', hp⟩ := takes_hex4 hds hn rest ((p.past '\\').past 'u')
      refine ⟨p', keptCharacter_eq_done_iff.mpr
        (.unicode rfl rfl (bind_eq_done_iff.mpr ⟨_, _, hp, ?_⟩))⟩
      simp only [htrailing, hleading, Bool.false_eq_true, if_false, hc]
      rfl

/-- What a surrogate pair goes on with behind its first half. -/
def pairRest (a : Nat) : Reader Char := do
  expectInPair '\\'
  expectInPair 'u'
  let b ← hex4
  if isTrailing b then pure (Char.ofNat (pairValue a b)) else here .loneSurrogate

theorem yields_expectInPair {c : Char} : Yields (expectInPair c) (c :: cs) (some ()) cs := by
  refine yields_peek ?_
  rw [List.head?_cons]
  simp only [if_true]
  exact fun _ => rfl

theorem yields_expectInPair_none {c : Char} (h : cs.head? ≠ some c) :
    Yields (expectInPair c) cs none rest := by
  refine yields_none_iff.mpr fun p _ _ hdone => ?_
  exact h (expectInPair_eq_done_iff.mp hdone).1

/-- A pair is a character if its second half is one. -/
theorem yields_pairRest {ds : List Char} {b : Nat} (a : Nat) (hds : ds.length = 4)
    (hb : hexValue? ds = some b) (rest : List Char) :
    Yields (pairRest a) ('\\' :: 'u' :: ds ++ rest)
      (if isTrailing b then some (Char.ofNat (pairValue a b)) else none) rest := by
  refine yields_expectInPair.andThen <| yields_expectInPair.andThen <|
    (yields_hex4 hds hb rest).andThen ?_
  cases isTrailing b with
  | true => exact .pure _ rest
  | false => exact .here _

/-- Nothing else is the second half of a pair. -/
theorem yields_pairRest_none {ts : List Char} {us : List StringUnit} (a : Nat)
    (h : SpellsUnits ts us) (hus : ∀ b us', us = .half b :: us' → isTrailing b = false)
    (rest rest' : List Char) : Yields (pairRest a) (ts ++ rest) none rest' := by
  cases h with
  -- The string ends, where a backslash is due.
  | close => exact (yields_expectInPair_none (by rintro ⟨⟩)).stop
  | @cons t ts u us hu _ =>
      cases hu with
      | plain _ hback _ =>
          have hne {c : Char} (hc : c ≠ '\\') : (c :: (ts ++ rest)).head? ≠ some '\\' :=
            fun h => hc (Option.some.inj h)
          exact (yields_expectInPair_none (hne hback)).stop
      | @simple x y hs =>
          -- An escape of another kind, where a `u` is due.
          refine yields_expectInPair.andThen (yields_expectInPair_none fun h => ?_).stop
          obtain rfl : x = 'u' := Option.some.inj h
          cases hs
      | @code ds n hds hn =>
          -- A code, but none of a second half.
          have htrailing : isTrailing n = false := by
            cases ht : isTrailing n with
            | false => rfl
            | true =>
                have hhalf : StringUnit.ofCode n = .half n := by
                  rw [StringUnit.ofCode, ht, Bool.or_true, if_pos rfl]
                exact ht.symm.trans (hus n us (by rw [hhalf]))
          have hrest := yields_pairRest a hds hn (ts ++ rest)
          rw [htrailing] at hrest
          rw [List.append_assoc]
          exact hrest.of_none

/-- A first half goes on with the rest of the pair. -/
theorem yields_unicodeEscape_half {ds : List Char} {a : Nat} {x : Option Char}
    (hds : ds.length = 4) (ha : hexValue? ds = some a) (hleading : isLeading a = true)
    (h : Yields (pairRest a) cs x rest) : Yields unicodeEscape (ds ++ cs) x rest := by
  have htrailing : isTrailing a = false := by
    simp only [isLeading, isTrailing, Bool.and_eq_true, decide_eq_true_eq] at hleading ⊢
    rw [Bool.and_eq_false_iff, decide_eq_false_iff_not]
    omega
  refine (yields_hex4 hds ha cs).andThen ?_
  simp only [htrailing, hleading, Bool.false_eq_true, if_false, if_true]
  exact h

/-- Behind a backslash and a `u` stands what the escape stands for. -/
theorem yields_keptCharacter_escape {x : Option Char} (h : Yields unicodeEscape cs x rest) :
    Yields keptCharacter ('\\' :: 'u' :: cs) (x.map some) rest :=
  yields_peek (yields_eat (Yields.map (yields_peek (yields_eat h)) some))

/-- A half can only be spelled by its number. -/
theorem exists_code_of_half {t : List Char} {a : Nat} (h : SpellsUnit t (.half a)) :
    ∃ ds, t = '\\' :: 'u' :: ds ∧ ds.length = 4 ∧ hexValue? ds = some a ∧
      (isLeading a = true ∨ isTrailing a = true) := by
  generalize hu : StringUnit.half a = u at h
  cases h with
  | plain => cases hu
  | simple => cases hu
  | code hds hn =>
      obtain ⟨rfl, ha⟩ := ofCode_eq_half hu.symm
      exact ⟨_, rfl, hds, hn, ha⟩

/-- A half that is not in a pair is not read. -/
theorem yields_keptCharacter_half {t : List Char} {a : Nat} {us : List StringUnit}
    (h : SpellsUnits t (.half a :: us))
    (hus : ∀ b us', us = .half b :: us' → isLeading a = true → isTrailing b = false)
    (rest rest' : List Char) : Yields keptCharacter (t ++ rest) none rest' := by
  cases h with
  | @cons t ts _ _ ha hts =>
      obtain ⟨ds, rfl, hds, ha, hhalf⟩ := exists_code_of_half ha
      rw [List.append_assoc]
      refine yields_keptCharacter_escape (x := none) ?_
      rcases hhalf with hleading | htrailing
      · exact yields_unicodeEscape_half hds ha hleading (yields_pairRest_none a hts
          (fun b us' h => hus b us' h hleading) rest rest')
      · refine (yields_hex4 hds ha (ts ++ rest)).andThen ?_
        simp only [htrailing, if_true]
        exact .here _

/-- One character in front of others. -/
theorem yields_characters_of_some {n : Nat} {c : Char} {x : Option (List Char)}
    {ds rest : List Char} (hone : Yields keptCharacter cs (some (some c)) ds)
    (hrest : Yields (characters keptCharacter n) ds x rest) :
    Yields (characters keptCharacter (n + 1)) cs (x.map (c :: ·)) rest :=
  hone.andThen (hrest.map (c :: ·))

/-- **The characters of a string** are read, if it is a row of characters. The induction is on the
units, of which a pair takes two. -/
theorem yields_characters {t : List Char} {us : List StringUnit} (h : SpellsUnits t us) {n : Nat}
    (hn : us.length < n) (rest : List Char) :
    Yields (characters keptCharacter n) (t ++ rest) (StringUnit.decode us) rest := by
  induction us using StringUnit.decode.induct generalizing t n with
  | case1 =>
      obtain ⟨n, rfl⟩ := Nat.exists_eq_add_one_of_ne_zero (Nat.ne_zero_of_lt hn)
      cases h
      -- No unit is left, so the quote comes next.
      have hclose : Takes keptCharacter ['"'] none rest :=
        fun _ => ⟨_, keptCharacter_eq_done_iff.mpr (.close rfl)⟩
      exact (yields_some_iff.mpr hclose).andThen (.pure [] rest)
  | case2 c us ih =>
      obtain ⟨n, rfl⟩ := Nat.exists_eq_add_one_of_ne_zero (Nat.ne_zero_of_lt hn)
      cases h with
      | @cons t ts _ _ hu hus =>
          rw [List.append_assoc, StringUnit.decode]
          have hkept := yields_some_iff.mpr (takes_keptCharacter hu (ts ++ rest))
          exact yields_characters_of_some hkept
            (ih hus (Nat.lt_of_succ_lt_succ hn))
  | case3 a b us hpair ih =>
      obtain ⟨n, rfl⟩ := Nat.exists_eq_add_one_of_ne_zero (Nat.ne_zero_of_lt hn)
      -- Two halves of a pair are one character, but two units and two steps of the induction.
      obtain ⟨hleading, htrailing⟩ := Bool.and_eq_true_iff.mp hpair
      cases h with
      | @cons t ts _ _ ha hts =>
          cases hts with
          | @cons t' ts _ _ hb hus =>
              obtain ⟨ds, rfl, hds, ha, -⟩ := exists_code_of_half ha
              obtain ⟨ds', rfl, hds', hb, -⟩ := exists_code_of_half hb
              have hpairRest := yields_pairRest a hds' hb (ts ++ rest)
              rw [if_pos htrailing] at hpairRest
              rw [List.append_assoc, List.append_assoc, decode_pair hleading htrailing]
              exact yields_characters_of_some
                (yields_keptCharacter_escape (yields_unicodeEscape_half hds ha hleading hpairRest))
                (ih hus (by rw [List.length_cons, List.length_cons] at hn; omega))
  | case4 a b us hpair =>
      obtain ⟨n, rfl⟩ := Nat.exists_eq_add_one_of_ne_zero (Nat.ne_zero_of_lt hn)
      -- A half with a unit behind it that does not fit: the string has no value and is not read.
      rw [StringUnit.decode, if_neg hpair]
      refine (yields_keptCharacter_half h (fun b' us' h hleading => ?_) rest rest).stop
      cases h
      simpa [hleading] using hpair
  | case5 a us hus =>
      obtain ⟨n, rfl⟩ := Nat.exists_eq_add_one_of_ne_zero (Nat.ne_zero_of_lt hn)
      -- A half with no code behind it: it is the last unit, or a character follows.
      rw [StringUnit.decode]
      · exact (yields_keptCharacter_half h (fun b us' h _ => absurd h (hus b us')) rest rest).stop
      · exact hus

/-- **A string** is read as what it spells. -/
theorem yields_quotedRest {t : List Char} {s : Option String} (h : SpellsString t s)
    (rest : List Char) : Yields quotedRest (t ++ rest) s rest := by
  obtain ⟨us, hus, rfl⟩ := h
  have hlt := hus.length_lt
  exact yields_remaining ((yields_characters hus (n := (t ++ rest).length + 1)
    (by rw [List.length_append]; omega) rest).map String.ofList)

/-- A key is a string behind its quote. -/
theorem yields_key {t : List Char} {s : Option String} (h : SpellsString t s) (rest : List Char) :
    Yields key ('"' :: (t ++ rest)) s rest :=
  yields_eat (yields_quotedRest h rest)

/-! ### Numbers -/

/-- **A number** is read as what its parts are worth, if this is in range. -/
theorem yields_number {t : List Char} {p : NumberParts} (h : SpellsNumber t p) {rest : List Char}
    (hrest : Follows rest) : Yields number (t ++ rest) p.number? rest := by
  refine (yields_some_iff.mpr (takes_numberParts _ h hrest)).andThen ?_
  cases p.number? with
  | none => exact fun _ => rfl
  | some n => exact .pure n rest

/-- A number is skipped, in range or not. -/
theorem yields_skipNumber {t : List Char} {p : NumberParts} (h : SpellsNumber t p)
    {rest : List Char} (hrest : Follows rest) : Yields skipNumber (t ++ rest) (some ()) rest :=
  (yields_some_iff.mpr (takes_numberParts _ h hrest)).andThen (.pure () rest)

/-! ### Commas and brackets -/

theorem yields_colon (hbs : Blank bs) (cs : List Char) :
    Yields colon (bs ++ ':' :: cs) (some ()) cs :=
  yields_token hbs rfl fun _ => rfl

theorem yields_closeList (cs : List Char) : Yields closeList (']' :: cs) (some ()) cs :=
  yields_token blank_nil rfl fun _ => rfl

theorem yields_closeObject (cs : List Char) : Yields closeObject ('\x7d' :: cs) (some ()) cs :=
  yields_token blank_nil rfl fun _ => rfl

/-- **Where the items end**, no item is due. The bracket is left for its own reader. -/
theorem yields_hasItem_end (first : Bool) (hbs : Blank bs) (cs : List Char) :
    Yields (hasItem first) (bs ++ ']' :: cs) (some false) (']' :: cs) :=
  yields_token hbs rfl fun _ => rfl

/-- The first item is due where anything but the bracket stands. -/
theorem yields_hasItem_first (hbs : Blank bs) (hcs : Leads cs) :
    Yields (hasItem true) (bs ++ cs) (some true) cs := by
  obtain ⟨c, cs, rfl, hblank, hend⟩ := hcs
  refine yields_token hbs hblank ?_
  simp only [if_true]
  exact .pure true _

/-- Behind a comma, an item is due. -/
theorem yields_hasItem_next {bs' : List Char} (hbs : Blank bs) (hbs' : Blank bs')
    (hcs : Leads cs) : Yields (hasItem false) (bs ++ ',' :: (bs' ++ cs)) (some true) cs := by
  obtain ⟨c, cs, rfl, hblank, hend⟩ := hcs
  refine yields_token hbs rfl (yields_eat (yields_token hbs' hblank ?_))
  simp only
  exact .pure true _

/-- **Where the members end**, no member is due. -/
theorem yields_hasMember_end (first : Bool) (hbs : Blank bs) (cs : List Char) :
    Yields (hasMember first) (bs ++ '\x7d' :: cs) (some false) ('\x7d' :: cs) :=
  yields_token hbs rfl fun _ => rfl

/-- The first member is due where a quote stands. -/
theorem yields_hasMember_first (hbs : Blank bs) (cs : List Char) :
    Yields (hasMember true) (bs ++ '"' :: cs) (some true) ('"' :: cs) :=
  yields_token hbs rfl fun _ => rfl

/-- Behind a comma, a member is due as well. -/
theorem yields_hasMember_next {bs' : List Char} (hbs : Blank bs) (hbs' : Blank bs')
    (cs : List Char) :
    Yields (hasMember false) (bs ++ ',' :: (bs' ++ '"' :: cs)) (some true) ('"' :: cs) :=
  yields_token hbs rfl (yields_eat (yields_token hbs' rfl fun _ => rfl))

/-- What stands between brackets is what its own reader makes of it. -/
theorem yields_enclosed {body : Reader α} {close : Reader Unit} {past : Cursor → Cursor}
    {ds : List Char} (hbody : Yields body cs x ds) (hclose : Yields close ds (some ()) rest) :
    Yields (enclosed body close past) cs x rest := by
  intro p
  cases x with
  | none =>
      refine outcome_eq_none_iff.mpr fun a c h => ?_
      obtain ⟨c₁, ha, -⟩ := enclosed_eq_done_iff.mp h
      exact yields_none_iff.mp hbody p a c₁ ha
  | some a =>
      obtain ⟨p₁, ha⟩ := outcome_eq_some_iff.mp (hbody p)
      obtain ⟨p₂, hend⟩ := outcome_eq_some_iff.mp (hclose p₁)
      exact outcome_eq_some_iff.mpr ⟨p₂, enclosed_eq_done_iff.mpr ⟨_, ha, hend⟩⟩

/-- What is not closed is not read. -/
theorem yields_enclosed_none {body : Reader α} {close : Reader Unit} {past : Cursor → Cursor}
    {ds : List Char} (hbody : Yields body cs x ds) (hclose : Yields close ds none rest) :
    Yields (enclosed body close past) cs none rest := by
  refine yields_none_iff.mpr fun p a c h => ?_
  obtain ⟨⟨_, p₁⟩, ha, hend⟩ := enclosed_eq_done_iff.mp h
  cases x with
  | none => exact yields_none_iff.mp hbody p a _ ha
  | some b =>
      obtain ⟨p₂, hb⟩ := outcome_eq_some_iff.mp (hbody p)
      cases ha.symm.trans hb
      exact yields_none_iff.mp hclose p₁ () c hend

end Reader

end FacetQuery.Json
