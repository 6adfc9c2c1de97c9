import FacetQuery.Proofs.Json.Reader.Steps

/-!
# Json — Reader — What is kept can be skipped

Under a key that is not known, a value is skipped: it is read with less care. A string or a number
that can be kept can be skipped as well, up to the same place. The converse fails, as half a
surrogate pair can be skipped.

* `Reader.Character`: how the next character of a string stands in a text.
* `Reader.skipQuotedRest_of_quotedRest`, `Reader.skipNumber_of_number`: strings and numbers.
-/

namespace FacetQuery.Json.Reader

variable {α β : Type}

/-! ### What is left of a text -/

/-- `Shrinks r`: what `r` leaves of a text is no longer than the text. -/
def Shrinks (r : Reader α) : Prop :=
  ∀ ⦃c a c'⦄, r c = .done a c' → c'.rest.length ≤ c.rest.length

/-- Taking a character that is there. -/
theorem length_advance {c : Cursor} {x : Char} (h : c.rest.head? = some x) :
    c.advance.rest.length + 1 = c.rest.length := by
  obtain ⟨_ | ⟨y, ys⟩, p⟩ := c
  · cases h
  · rfl

/-! ### Quoted strings -/

/-- Four hexadecimal digits are taken at once, or none. -/
theorem shrinks_hex4 : Shrinks hex4 := by
  intro c n c' h
  unfold hex4 at h
  split at h
  · cases h
  · split at h
    · cases h
      exact (List.drop_sublist _ _).length_le
    · cases h

/-- The second half of a pair is announced by two characters, each of which must be there. -/
theorem expectInPair_eq_done_iff {x : Char} {c c' : Cursor} :
    expectInPair x c = .done () c' ↔ c.rest.head? = some x ∧ c.advance = c' := by
  rw [expectInPair, peek_bind]
  rcases c.rest.head? with _ | y
  · simp
  · by_cases h : y = x <;> simp [h]

/-- An escape is a single one, or two that make up a pair. -/
theorem unicodeEscape_eq_done {c c' : Cursor} {x : Char} (h : unicodeEscape c = .done x c') :
    ∃ n c₁, hex4 c = .done n c₁ ∧
      (c₁ = c' ∨ c₁.rest.head? = some '\\' ∧ c₁.advance.rest.head? = some 'u' ∧
        ∃ m, hex4 c₁.advance.advance = .done m c') := by
  obtain ⟨n, c₁, hn, h⟩ := bind_eq_done_iff.mp h
  refine ⟨n, c₁, hn, ?_⟩
  -- A second half is refused, a first half needs its second, and any other number is a character.
  by_cases ht : isTrailing n = true
  · rw [if_pos ht] at h
    cases h
  · rw [if_neg ht] at h
    by_cases hl : isLeading n = true
    · rw [if_pos hl] at h
      obtain ⟨⟨⟩, c₂, hback, h⟩ := bind_eq_done_iff.mp h
      obtain ⟨hx, rfl⟩ := expectInPair_eq_done_iff.mp hback
      obtain ⟨⟨⟩, c₂, hu, h⟩ := bind_eq_done_iff.mp h
      obtain ⟨hy, rfl⟩ := expectInPair_eq_done_iff.mp hu
      obtain ⟨m, c₂, hm, h⟩ := bind_eq_done_iff.mp h
      by_cases htm : isTrailing m = true
      · rw [if_pos htm] at h
        obtain ⟨-, rfl⟩ := pure_eq_done_iff.mp h
        exact .inr ⟨hx, hy, m, hm⟩
      · rw [if_neg htm] at h
        cases h
    · rw [if_neg hl] at h
      cases h
      exact .inl rfl

/-- How the next character of a string stands at `c`, for a reader of what is behind a `\u`. -/
inductive Character (unicode : Reader Char) (c : Cursor) : Option Char → Cursor → Prop
  | close : c.rest.head? = some '"' → Character unicode c none c.advance
  | plain {x : Char} : c.rest.head? = some x → x ≠ '"' → x ≠ '\\' → ¬ x.toNat < 0x20 →
      Character unicode c (some x) c.advance
  | simple {x y : Char} : c.rest.head? = some '\\' → c.advance.rest.head? = some x →
      simpleEscape? x = some y → Character unicode c (some y) c.advance.advance
  | unicode {x : Char} {c' : Cursor} : c.rest.head? = some '\\' → c.advance.rest.head? = some 'u' →
      unicode c.advance.advance = .done x c' → Character unicode c (some x) c'

/-- Behind a backslash stands a `u` with what `unicode` reads, or one of the characters with an
escape of their own. -/
theorem escaped_eq_done_iff {unicode : Reader Char} {z : Char} {c c' : Cursor} :
    escaped unicode c = .done z c' ↔
      (c.rest.head? = some 'u' ∧ unicode c.advance = .done z c') ∨
        ∃ x, c.rest.head? = some x ∧ simpleEscape? x = some z ∧ c' = c.advance := by
  rw [escaped, peek_bind]
  rcases hx : c.rest.head? with _ | x
  · simp
  · by_cases hu : x = 'u'
    · subst hu
      have hsimple : simpleEscape? 'u' = none := rfl
      simp [hsimple, eat_bind]
    · simp only [hu, Option.some.injEq, false_and, false_or, exists_eq_left']
      cases hs : simpleEscape? x with
      | none => simp
      | some y =>
          simp only [Option.some.injEq]
          constructor
          · rintro ⟨⟩
            exact ⟨rfl, rfl⟩
          · rintro ⟨rfl, rfl⟩
            rfl

/-- **The next character of a string** stands in one of four ways. Control characters are refused,
with an error that depends on whether the string is kept or skipped. -/
theorem character_eq_done_iff {control : Reader (Option Char)} {unicode : Reader Char}
    (hcontrol : ∀ c x c', control c ≠ .done x c') {x : Option Char} {c c' : Cursor} :
    character control unicode c = .done x c' ↔ Character unicode c x c' := by
  rw [character, peek_bind]
  constructor
  · intro h
    rcases hx : c.rest.head? with _ | y
    · rw [hx] at h
      cases h
    · rw [hx] at h
      simp only at h
      -- A quote ends the string, a backslash begins an escape; then control characters are refused.
      by_cases hq : y = '"'
      · subst hq
        rw [if_pos rfl] at h
        cases h
        exact .close hx
      rw [if_neg hq] at h
      by_cases hb : y = '\\'
      · subst hb
        rw [if_pos rfl, eat_bind] at h
        obtain ⟨z, c₁, hz, h⟩ := bind_eq_done_iff.mp h
        cases h
        rcases escaped_eq_done_iff.mp hz with ⟨hu, hz⟩ | ⟨y, hy, hs, rfl⟩
        · exact .unicode hx hu hz
        · exact .simple hx hy hs
      rw [if_neg hb] at h
      by_cases hc : y.toNat < 0x20
      · rw [if_pos hc] at h
        exact absurd h (hcontrol _ _ _)
      · rw [if_neg hc] at h
        cases h
        exact .plain hx hq hb hc
  · intro h
    cases h with
    | close hx => rw [hx]; rfl
    | plain hx hq hb hc =>
        rw [hx]
        simp only [if_neg hq, if_neg hb, if_neg hc]
        rfl
    | simple hx hy hs =>
        rw [hx]
        exact bind_eq_done_iff.mpr ⟨(), _, rfl, bind_eq_done_iff.mpr
          ⟨_, _, escaped_eq_done_iff.mpr (.inr ⟨_, hy, hs, rfl⟩), rfl⟩⟩
    | unicode hx hy hu =>
        rw [hx]
        exact bind_eq_done_iff.mpr ⟨(), _, rfl, bind_eq_done_iff.mpr
          ⟨_, _, escaped_eq_done_iff.mpr (.inl ⟨hy, hu⟩), rfl⟩⟩

/-- The next character of a string takes at least one character. -/
theorem Character.length_lt {unicode : Reader Char} (hu : Shrinks unicode) {x : Option Char}
    {c c' : Cursor} (h : Character unicode c x c') : c'.rest.length < c.rest.length := by
  cases h with
  | close hx => have := length_advance hx; omega
  | plain hx _ _ _ => have := length_advance hx; omega
  | simple hx hy _ =>
      have := length_advance hx
      have := length_advance hy
      omega
  | unicode hx hy h =>
      have := length_advance hx
      have := length_advance hy
      have := hu h
      omega

/-- A surrogate pair takes two escapes, and any other character one. -/
theorem shrinks_unicodeEscape : Shrinks unicodeEscape := by
  intro c x c' h
  obtain ⟨n, c₁, hn, rfl | ⟨hx, hy, m, hm⟩⟩ := unicodeEscape_eq_done h
  · exact shrinks_hex4 hn
  · have := shrinks_hex4 hn
    have := length_advance hx
    have := length_advance hy
    have := shrinks_hex4 hm
    omega

/-- The characters that `quotedRest` keeps. -/
def keptCharacter : Reader (Option Char) :=
  character (ahead .controlCharacter) unicodeEscape

/-- The characters that `skipQuotedRest` passes, where a pair counts as two. -/
def passedCharacter : Reader (Option Char) :=
  character (here .controlCharacter) (do let _ ← hex4; pure ' ')

/-- A character that is kept must be a character, so that half a pair is refused. -/
theorem keptCharacter_eq_done_iff {x : Option Char} {c c' : Cursor} :
    keptCharacter c = .done x c' ↔ Character unicodeEscape c x c' :=
  character_eq_done_iff fun _ _ _ => ahead_ne_done

/-- A character that is passed may be any number of four digits, so that half a pair is passed. -/
theorem passedCharacter_eq_done_iff {x : Option Char} {c c' : Cursor} :
    passedCharacter c = .done x c' ↔ Character (do let _ ← hex4; pure ' ') c x c' :=
  character_eq_done_iff fun _ _ _ => here_ne_done

/-- A row of characters ends at its quote, or goes on with one more character. -/
theorem characters_succ_eq_done_iff {one : Reader (Option Char)} {n : Nat} {cs : List Char}
    {c c' : Cursor} :
    characters one (n + 1) c = .done cs c' ↔
      (one c = .done none c' ∧ cs = []) ∨
        ∃ x c₁ xs, one c = .done (some x) c₁ ∧ characters one n c₁ = .done xs c' ∧
          cs = x :: xs := by
  rw [characters, bind_eq_done_iff]
  constructor
  · rintro ⟨_ | x, c₁, hx, h⟩
    · cases h
      exact .inl ⟨hx, rfl⟩
    · obtain ⟨xs, c₂, hxs, h⟩ := bind_eq_done_iff.mp h
      cases h
      exact .inr ⟨x, c₁, xs, hx, hxs, rfl⟩
  · rintro (⟨hx, rfl⟩ | ⟨x, c₁, xs, hx, hxs, rfl⟩)
    · exact ⟨none, c', hx, rfl⟩
    · exact ⟨some x, c₁, hx, bind_eq_done_iff.mpr ⟨xs, c', hxs, rfl⟩⟩

/-- A string that can be kept can be passed, with any bound above what is left of the text. -/
theorem characters_passed {n m : Nat} {cs : List Char} {c c' : Cursor}
    (h : characters keptCharacter n c = .done cs c') (hm : c.rest.length < m) :
    ∃ ds, characters passedCharacter m c = .done ds c' := by
  induction n generalizing c cs m with
  | zero => cases h
  | succ n ih =>
      obtain ⟨m, rfl⟩ := Nat.exists_eq_add_one_of_ne_zero (Nat.ne_zero_of_lt hm)
      -- One character behind which the rest is read is one that is passed, or a pair of them.
      have pass : ∀ {x c₁}, passedCharacter c = .done (some x) c₁ →
          (∃ ds, characters passedCharacter m c₁ = .done ds c') →
          ∃ ds, characters passedCharacter (m + 1) c = .done ds c' := by
        rintro x c₁ hx ⟨ds, hds⟩
        exact ⟨x :: ds, characters_succ_eq_done_iff.mpr (.inr ⟨x, c₁, ds, hx, hds, rfl⟩)⟩
      rcases characters_succ_eq_done_iff.mp h with ⟨hx, rfl⟩ | ⟨x, c₁, xs, hx, hxs, rfl⟩
      · cases keptCharacter_eq_done_iff.mp hx with
        | close hquote =>
            exact ⟨[], characters_succ_eq_done_iff.mpr
              (.inl ⟨passedCharacter_eq_done_iff.mpr (.close hquote), rfl⟩)⟩
      · have hlt := (keptCharacter_eq_done_iff.mp hx).length_lt shrinks_unicodeEscape
        have hrest := ih (m := m) hxs (by omega)
        cases keptCharacter_eq_done_iff.mp hx with
        | plain hy hq hb hc =>
            exact pass (passedCharacter_eq_done_iff.mpr (.plain hy hq hb hc)) hrest
        | simple hy hz hs => exact pass (passedCharacter_eq_done_iff.mpr (.simple hy hz hs)) hrest
        | unicode hy hz hu =>
            obtain ⟨k, c₂, hk, rfl | ⟨hy', hz', k', hk'⟩⟩ := unicodeEscape_eq_done hu
            · exact pass (passedCharacter_eq_done_iff.mpr (.unicode hy hz
                (bind_eq_done_iff.mpr ⟨k, c₂, hk, rfl⟩))) hrest
            · refine pass (passedCharacter_eq_done_iff.mpr (.unicode hy hz
                (bind_eq_done_iff.mpr ⟨k, c₂, hk, rfl⟩))) ?_
              have := length_advance hy
              have := length_advance hz
              have := shrinks_hex4 hk
              have := length_advance hy'
              have := length_advance hz'
              have := shrinks_hex4 hk'
              obtain ⟨l, rfl⟩ : ∃ l, m = l + 1 := ⟨m - 1, by omega⟩
              obtain ⟨ds, hds⟩ := ih (m := l) hxs (by omega)
              exact ⟨' ' :: ds, characters_succ_eq_done_iff.mpr (.inr ⟨' ', c₁, ds,
                passedCharacter_eq_done_iff.mpr (.unicode hy' hz'
                  (bind_eq_done_iff.mpr ⟨k', c₁, hk', rfl⟩)), hds, rfl⟩)⟩

/-- A string behind its first quote is the row of its characters. The bound on their number is what
is left of the text, and one more for the quote. -/
theorem quotedRest_eq_done_iff {s : String} {c c' : Cursor} :
    quotedRest c = .done s c' ↔
      ∃ cs, characters keptCharacter (c.rest.length + 1) c = .done cs c' ∧
        String.ofList cs = s := by
  rw [quotedRest, remaining_bind]
  refine bind_eq_done_iff.trans ?_
  simp only [pure_eq_done_iff]
  constructor
  · rintro ⟨cs, _, h, rfl, rfl⟩
    exact ⟨cs, h, rfl⟩
  · rintro ⟨cs, h, rfl⟩
    exact ⟨cs, c', h, rfl, rfl⟩

/-- **A string that can be kept** can be skipped, and what is left of the text is the same. -/
theorem skipQuotedRest_of_quotedRest {s : String} {c c' : Cursor} (h : quotedRest c = .done s c') :
    skipQuotedRest c = .done () c' := by
  obtain ⟨cs, hcs, -⟩ := quotedRest_eq_done_iff.mp h
  obtain ⟨ds, hds⟩ := characters_passed hcs (Nat.lt_succ_self _)
  rw [skipQuotedRest, remaining_bind]
  exact bind_eq_done_iff.mpr ⟨ds, c', hds, rfl⟩

/-! ### Numbers -/

/-- `Within r r'`: where `r` ends with a value, `r'` ends with it at the same place. -/
def Within (r r' : Reader α) : Prop :=
  ∀ ⦃c a c'⦄, r c = .done a c' → r' c = .done a c'

namespace Within

theorem refl (r : Reader α) : Within r r := fun _ _ _ h => h

theorem bind {r r' : Reader α} {f f' : α → Reader β} (hr : Within r r')
    (hf : ∀ a, Within (f a) (f' a)) : Within (r >>= f) (r' >>= f') := by
  intro c b c' h
  obtain ⟨a, c₁, ha, hb⟩ := bind_eq_done_iff.mp h
  exact bind_eq_done_iff.mpr ⟨a, c₁, hr ha, hf a hb⟩

theorem here (f : Fault) (r : Reader α) : Within (here f) r := nofun

theorem ahead (f : Fault) (r : Reader α) : Within (ahead f) r := nofun

end Within

/-- Digits are the same digits, whichever error there is for none. -/
theorem within_requireDigits (f g : Fault) : Within (requireDigits f) (requireDigits g) := by
  refine (Within.refl _).bind fun ds => ?_
  by_cases h : ds ≠ []
  · simp only [if_pos h]
    exact .refl _
  · simp only [if_neg h]
    refine (Within.refl _).bind fun x => ?_
    cases x with
    | none => exact .here _ _
    | some _ => exact .ahead _ _

/-- The digits in front of the point are the same as well. -/
theorem within_wholeDigits (f g : Fault) : Within (wholeDigits f) (wholeDigits g) := by
  refine (Within.refl _).bind fun x => ?_
  split
  · exact .refl _
  · exact within_requireDigits f g

/-- So are those behind the point. -/
theorem within_fractionDigits (f g : Fault) : Within (fractionDigits f) (fractionDigits g) := by
  refine (Within.refl _).bind fun x => ?_
  split
  · exact (Within.refl _).bind fun _ => (within_requireDigits f g).bind fun _ => .refl _
  · exact .refl _

/-- So are those of an exponent, with its sign. -/
theorem within_exponentDigits (f g : Fault) : Within (exponentDigits f) (exponentDigits g) := by
  refine (Within.refl _).bind fun x => ?_
  cases x with
  | none => exact .refl _
  | some x =>
      by_cases h : x = 'e' ∨ x = 'E'
      · simp only [if_pos h]
        refine (Within.refl _).bind fun _ => (Within.refl _).bind fun sign => ?_
        split
        · exact (Within.refl _).bind fun _ => (within_requireDigits f g).bind fun _ => .refl _
        · exact (within_requireDigits f g).bind fun _ => .refl _
      · simp only [if_neg h]
        exact .refl _

/-- **The parts of a number** do not depend on what is said of other texts. Kept and skipped numbers
differ in nothing else but their errors. -/
theorem within_numberParts (f g : Fault) : Within (numberParts f) (numberParts g) := by
  refine (Within.refl _).bind fun x => ?_
  have parts (negative : Bool) : Within
      (do
        let whole ← wholeDigits f
        let fraction ← fractionDigits f
        let exponent ← exponentDigits f
        return { negative, whole, fraction, exponent } : Reader NumberParts)
      (do
        let whole ← wholeDigits g
        let fraction ← fractionDigits g
        let exponent ← exponentDigits g
        return { negative, whole, fraction, exponent }) := by
    refine (within_wholeDigits f g).bind fun whole => ?_
    refine (within_fractionDigits f g).bind fun fraction => ?_
    exact (within_exponentDigits f g).bind fun exponent => .refl _
  simp only
  split
  · exact (Within.refl _).bind fun _ => parts _
  · exact parts _

/-- **A number that can be kept** can be skipped, whether or not there is a double for it. -/
theorem skipNumber_of_number {n : Number} {c c' : Cursor} (h : number c = .done n c') :
    skipNumber c = .done () c' := by
  obtain ⟨p, c₁, hp, h⟩ := bind_eq_done_iff.mp h
  cases hn : p.number? with
  | none =>
      rw [hn] at h
      cases h
  | some m =>
      rw [hn] at h
      cases h
      exact bind_eq_done_iff.mpr ⟨p, c', within_numberParts _ _ hp, rfl⟩

/-- The digits of a whole number are a zero with no digit behind it, or begin with another one. -/
theorem wholeDigits_eq_done_iff {f : Fault} {ds : List Char} {c c' : Cursor} :
    wholeDigits f c = .done ds c' ↔
      (c.rest.head? = some '0' ∧ (∀ d, c.advance.rest.head? = some d → d.isDigit = false) ∧
        ['0'] = ds ∧ c.advance = c') ∨
      (c.rest.head? ≠ some '0' ∧ requireDigits f c = .done ds c') := by
  rw [wholeDigits, peek_bind]
  rcases c.rest.head? with _ | x
  · simp
  · by_cases hzero : x = '0'
    · subst hzero
      simp only [eat_bind, peek_bind]
      rcases c.advance.rest.head? with _ | y
      · simp
      · by_cases hy : y.isDigit <;> simp [hy]
    · simp [hzero]

end FacetQuery.Json.Reader
