import FacetQuery.Proofs.Json.Reader.Interprets
import Mathlib.Data.List.TakeWhile

/-!
# Json — Reader — Only values are read

What is read, or skipped, is a text of a value.

* `Reader.Grammatical`: a reader that takes blanks and a text of a value, whenever it is done.
* `Reader.spells_of_skipQuotedRest`, `Reader.spellsNumber_of_numberParts`: strings and numbers.
* `Reader.grammatical_skipValue`, `Reader.grammatical_value`, `Reader.grammatical_record`, …: the
  readers of values.
* `Reader.Grammatical.writes_of_run`: a whole text.
-/

namespace FacetQuery.Json

variable {α β σ : Type}

namespace Reader

/-! ### Single characters -/

theorem rest_advance {c : Cursor} {x : Char} (h : c.rest.head? = some x) :
    c.rest = x :: c.advance.rest := by
  obtain ⟨_ | ⟨y, ys⟩, p⟩ := c
  · cases h
  · cases h
    rfl

/-- What is passed in front of a token are blanks, so that they are part of the text that is taken.
-/
theorem exists_blank (c : Cursor) : ∃ bs, Blank bs ∧ c.rest = bs ++ c.pastBlanks.rest :=
  ⟨c.rest.takeWhile Cursor.isBlank, fun _ hx => List.mem_takeWhile_imp hx,
    List.takeWhile_append_dropWhile.symm⟩

/-- So are those in front of a character that has been seen behind them. -/
theorem exists_blank_cons {c : Cursor} {x : Char} (h : c.pastBlanks.rest.head? = some x) :
    ∃ bs, Blank bs ∧ c.rest = bs ++ x :: c.pastBlanks.advance.rest := by
  obtain ⟨bs, hbs, hrest⟩ := exists_blank c
  exact ⟨bs, hbs, rest_advance h ▸ hrest⟩

theorem blank_append {bs bs' : List Char} (h : Blank bs) (h' : Blank bs') : Blank (bs ++ bs') :=
  fun x hx => (List.mem_append.mp hx).elim (h x) (h' x)

/-- A word that is read stands in the text. -/
theorem rest_of_word {w : List Char} {c c' : Cursor} (h : word w c = .done () c') :
    c.rest = w ++ c'.rest := by
  obtain ⟨rest, hrest, rfl⟩ := word_eq_done_iff.mp h
  exact hrest

/-! ### Strings -/

/-- As many single bytes are as many characters. -/
theorem length_take_of_pastBytes? {n : Nat} {p place : Position} {cs : List Char}
    (hplace : Position.pastBytes? n p cs = some place) (hsize : ∀ c ∈ cs.take n, c.utf8Size = 1) :
    (cs.take n).length = n := by
  induction cs generalizing n p with
  | nil =>
      cases n with
      | zero => rfl
      | succ n =>
          rw [Position.pastBytes?] at hplace
          cases hplace
  | cons c cs ih =>
      cases n with
      | zero => rfl
      | succ n =>
          obtain ⟨hc, hsize⟩ := List.forall_mem_cons.mp hsize
          rw [Position.pastBytes?, hc, if_pos (Nat.le_add_left 1 n), Nat.add_sub_cancel] at hplace
          rw [List.take_succ_cons, List.length_cons, ih hplace hsize]

/-- Four characters are taken as a number only if they are hexadecimal digits. The reader counts
bytes, and each digit is one byte. -/
theorem exists_of_hex4 {n : Nat} {c c' : Cursor} (h : hex4 c = .done n c') :
    ∃ ds, ds.length = 4 ∧ hexValue? ds = some n ∧ c.rest = ds ++ c'.rest := by
  unfold hex4 at h
  split at h
  · cases h
  · next place hplace =>
      split at h
      · next m hm =>
          cases h
          exact ⟨c.rest.take 4, length_take_of_pastBytes? hplace (utf8Size_of_hexValue? hm), hm,
            (List.take_append_drop 4 _).symm⟩
      · cases h

/-- A character that is passed is a unit of a string, in any of its spellings. -/
theorem spells_of_passedCharacter {x : Char} {c c' : Cursor}
    (h : passedCharacter c = .done (some x) c') :
    ∃ t u, c.rest = t ++ c'.rest ∧ SpellsUnit t u := by
  cases passedCharacter_eq_done_iff.mp h with
  | plain hx hquote hback hcontrol =>
      exact ⟨[x], _, rest_advance hx, .plain hquote hback hcontrol⟩
  | @simple y _ hx hy hs =>
      exact ⟨['\\', y], _, by rw [rest_advance hx, rest_advance hy]; rfl, .simple hs⟩
  | unicode hx hy hu =>
      obtain ⟨n, c₁, hn, hdone⟩ := bind_eq_done_iff.mp hu
      obtain ⟨-, rfl⟩ := pure_eq_done_iff.mp hdone
      obtain ⟨ds, hds, hvalue, hrest⟩ := exists_of_hex4 hn
      exact ⟨'\\' :: 'u' :: ds, _, by rw [rest_advance hx, rest_advance hy, hrest]; rfl,
        .code hds hvalue⟩

/-- A row of characters that is passed is a row of units with a quote behind it. -/
theorem spells_of_passed {n : Nat} {xs : List Char} {c c' : Cursor}
    (h : characters passedCharacter n c = .done xs c') :
    ∃ t us, c.rest = t ++ c'.rest ∧ SpellsUnits t us := by
  induction n generalizing c xs with
  | zero => cases h
  | succ n ih =>
      rcases characters_succ_eq_done_iff.mp h with ⟨hx, -⟩ | ⟨x, c₁, xs, hx, hxs, -⟩
      · cases passedCharacter_eq_done_iff.mp hx with
        | close hquote => exact ⟨['"'], [], rest_advance hquote, .close⟩
      · obtain ⟨t, u, ht, hu⟩ := spells_of_passedCharacter hx
        obtain ⟨ts, us, hts, hus⟩ := ih hxs
        exact ⟨t ++ ts, u :: us, by rw [ht, hts, List.append_assoc], .cons hu hus⟩

/-- **A string that is skipped** is one: what is passed up to the quote are units of a string, and a
half of a pair is one of them. -/
theorem spells_of_skipQuotedRest {c c' : Cursor} (h : skipQuotedRest c = .done () c') :
    ∃ t s, c.rest = t ++ c'.rest ∧ SpellsString t s := by
  rw [skipQuotedRest, remaining_bind] at h
  obtain ⟨xs, c₁, hxs, hdone⟩ := bind_eq_done_iff.mp h
  obtain ⟨-, rfl⟩ := pure_eq_done_iff.mp hdone
  obtain ⟨t, us, ht, hus⟩ := spells_of_passed hxs
  exact ⟨t, _, ht, us, hus, rfl⟩

/-- A key that is read could have been skipped, and so it is a string. -/
theorem quoted_of_key {k : String} {c c' : Cursor} (h : key c = .done k c') :
    skipQuotedRest c.advance = .done () c' := by
  obtain ⟨⟨⟩, c₁, heat, hquoted⟩ := bind_eq_done_iff.mp h
  cases heat
  exact skipQuotedRest_of_quotedRest hquoted

/-! ### Numbers -/

/-- Digits that are read stand in the text, and there is at least one. -/
theorem digits_of_requireDigits {f : Fault} {ds : List Char} {c c' : Cursor}
    (h : requireDigits f c = .done ds c') : c.rest = ds ++ c'.rest ∧ NumberParts.Digits ds := by
  obtain ⟨xs, c₁, hxs, h⟩ := bind_eq_done_iff.mp h
  cases hxs
  split at h
  · next hne =>
      obtain ⟨rfl, rfl⟩ := pure_eq_done_iff.mp h
      exact ⟨List.takeWhile_append_dropWhile.symm, hne, fun d hd => List.mem_takeWhile_imp hd⟩
  · obtain ⟨x, c₁, -, h⟩ := bind_eq_done_iff.mp h
    cases x <;> cases h

/-- In front of the point, there is no zero before other digits. -/
theorem digits_of_wholeDigits {f : Fault} {ds : List Char} {c c' : Cursor}
    (h : wholeDigits f c = .done ds c') :
    c.rest = ds ++ c'.rest ∧ NumberParts.Digits ds ∧ (ds.head? = some '0' → ds = ['0']) := by
  rcases wholeDigits_eq_done_iff.mp h with ⟨hx, -, rfl, rfl⟩ | ⟨hx, h⟩
  · exact ⟨rest_advance hx, ⟨by simp, by simp⟩, fun _ => rfl⟩
  · obtain ⟨hrest, hds⟩ := digits_of_requireDigits h
    refine ⟨hrest, hds, fun hzero => absurd ?_ hx⟩
    obtain ⟨d, ds, rfl⟩ := List.exists_cons_of_ne_nil hds.ne_nil
    rw [hrest]
    exact hzero

/-- Behind a point stand digits, and where there is no point, nothing is taken. In both cases the
parts say what stands there. -/
theorem digits_of_fractionDigits {f : Fault} {fraction : Option (List Char)} {c c' : Cursor}
    (h : fractionDigits f c = .done fraction c') :
    c.rest = NumberParts.fractionChars fraction ++ c'.rest ∧
      ∀ ds, fraction = some ds → NumberParts.Digits ds := by
  rw [fractionDigits, peek_bind] at h
  rcases hx : c.rest.head? with _ | x
  · rw [hx] at h
    obtain ⟨rfl, rfl⟩ := pure_eq_done_iff.mp h
    exact ⟨rfl, by simp⟩
  · rw [hx] at h
    by_cases hpoint : x = '.'
    · subst hpoint
      obtain ⟨⟨⟩, c₀, heat, h⟩ := bind_eq_done_iff.mp h
      cases heat
      obtain ⟨ds, c₁, hds, h⟩ := bind_eq_done_iff.mp h
      obtain ⟨rfl, rfl⟩ := pure_eq_done_iff.mp h
      obtain ⟨hrest, hds⟩ := digits_of_requireDigits hds
      refine ⟨by rw [rest_advance hx, hrest]; rfl, ?_⟩
      rintro _ ⟨⟩
      exact hds
    · have h : (pure none : Reader (Option (List Char))) c = .done fraction c' := by
        simpa [hpoint] using h
      obtain ⟨rfl, rfl⟩ := pure_eq_done_iff.mp h
      exact ⟨rfl, by simp⟩

/-- An exponent is one letter, perhaps a sign, and digits. There are two letters and two signs, so
each case is taken apart in the same way. -/
theorem digits_of_exponentDigits {f : Fault} {exponent : Option (Bool × List Char)} {c c' : Cursor}
    (h : exponentDigits f c = .done exponent c') :
    ∃ power, c.rest = power ++ c'.rest ∧ SpellsPower power exponent ∧
      ∀ negative ds, exponent = some (negative, ds) → NumberParts.Digits ds := by
  rw [exponentDigits, peek_bind] at h
  rcases hx : c.rest.head? with _ | x
  · rw [hx] at h
    obtain ⟨rfl, rfl⟩ := pure_eq_done_iff.mp h
    exact ⟨[], rfl, .none, by simp⟩
  rw [hx] at h
  simp only at h
  split at h
  · next he =>
      rw [eat_bind, peek_bind] at h
      -- The digits stand behind the sign.
      have hdigits {c₁ : Cursor} {sign : List Char} {negative : Bool}
          (hsign : SpellsSign sign negative) (hrest : c.advance.rest = sign ++ c₁.rest)
          (h : (do return some (negative, ← requireDigits f) : Reader _) c₁ = .done exponent c') :
          ∃ power, c.rest = power ++ c'.rest ∧ SpellsPower power exponent ∧
            ∀ negative ds, exponent = some (negative, ds) → NumberParts.Digits ds := by
        obtain ⟨ds, c₂, hds, h⟩ := bind_eq_done_iff.mp h
        obtain ⟨rfl, rfl⟩ := pure_eq_done_iff.mp h
        obtain ⟨hrest', hds⟩ := digits_of_requireDigits hds
        refine ⟨x :: (sign ++ ds), ?_, .some he hsign, ?_⟩
        · rw [rest_advance hx, hrest, hrest', List.cons_append, List.append_assoc]
        · rintro _ _ ⟨⟩
          exact hds
      rcases hy : c.advance.rest.head? with _ | y
      · rw [hy] at h
        exact hdigits .none rfl h
      · rw [hy] at h
        by_cases hminus : y = '-'
        · subst hminus
          exact hdigits .minus (rest_advance hy) h
        · by_cases hplus : y = '+'
          · subst hplus
            exact hdigits .plus (rest_advance hy) h
          · refine hdigits .none rfl ?_
            simpa [hminus, hplus] using h
  · obtain ⟨rfl, rfl⟩ := pure_eq_done_iff.mp h
    exact ⟨[], rfl, .none, by simp⟩

/-- **The parts of a number** are those that its text spells: the sign, the whole digits, the
fraction and the exponent, one behind the other. -/
theorem spellsNumber_of_numberParts {f : Fault} {p : NumberParts} {c c' : Cursor}
    (h : numberParts f c = .done p c') : ∃ t, c.rest = t ++ c'.rest ∧ SpellsNumber t p := by
  -- What is read behind the sign is the same with a sign and without one.
  have hparts {negative : Bool} {c₁ : Cursor}
      (hrest : c.rest = (if negative then ['-'] else []) ++ c₁.rest) (h : (do
        let whole ← wholeDigits f
        let fraction ← fractionDigits f
        let exponent ← exponentDigits f
        return { negative, whole, fraction, exponent } : Reader NumberParts) c₁ = .done p c') :
      ∃ t, c.rest = t ++ c'.rest ∧ SpellsNumber t p := by
    obtain ⟨whole, c₂, hwhole, h⟩ := bind_eq_done_iff.mp h
    obtain ⟨fraction, c₃, hfraction, h⟩ := bind_eq_done_iff.mp h
    obtain ⟨exponent, c₄, hexponent, h⟩ := bind_eq_done_iff.mp h
    obtain ⟨rfl, rfl⟩ := pure_eq_done_iff.mp h
    obtain ⟨hrest₂, hwhole, hleading⟩ := digits_of_wholeDigits hwhole
    obtain ⟨hrest₃, hfraction⟩ := digits_of_fractionDigits hfraction
    obtain ⟨power, hrest₄, hpower, hexponent⟩ := digits_of_exponentDigits hexponent
    exact ⟨_, by simp only [hrest, hrest₂, hrest₃, hrest₄, List.append_assoc],
      .intro ⟨hwhole, hleading, hfraction, hexponent⟩ hpower⟩
  rw [numberParts, peek_bind] at h
  simp only at h
  split at h
  · next hminus =>
      obtain ⟨⟨⟩, c₀, heat, h⟩ := bind_eq_done_iff.mp h
      cases heat
      exact hparts (by rw [decide_eq_true hminus, rest_advance hminus]; rfl) h
  · next hminus => exact hparts (by rw [decide_eq_false hminus]; rfl) h

/-! ### Values -/

/-- `Consumes c c'`: from `c` to `c'` stands a text of a value, behind blanks. -/
def Consumes (c c' : Cursor) : Prop :=
  ∃ bs t v, c.rest = bs ++ (t ++ c'.rest) ∧ Blank bs ∧ Spells t v

/-- Blanks are not needed in front of a value. -/
theorem Consumes.of_spells {c c' : Cursor} {t : List Char} {v : Tree} (ht : c.rest = t ++ c'.rest)
    (h : Spells t v) : Consumes c c' :=
  ⟨[], t, v, ht, nofun, h⟩

/-- Blanks in front of a value may have been passed before. -/
theorem Consumes.of_pastBlanks {c c' : Cursor} (h : Consumes c.pastBlanks c') : Consumes c c' := by
  obtain ⟨bs, hbs, hrest⟩ := exists_blank c
  obtain ⟨bs', t, v, ht, hbs', hv⟩ := h
  exact ⟨bs ++ bs', t, v, by rw [hrest, ht, List.append_assoc], blank_append hbs hbs', hv⟩

/-- `Grammatical r`: whenever `r` is done, it has taken blanks and a text of a value. -/
def Grammatical (r : Reader α) : Prop :=
  ∀ ⦃c a c'⦄, r c = .done a c' → Consumes c c'

/-- `Keeps r`: whenever `r` is done, it has taken nothing. -/
def Keeps (r : Reader α) : Prop :=
  ∀ ⦃c a c'⦄, r c = .done a c' → c = c'

theorem keeps_pure (a : α) : Keeps (pure a) := fun _ _ _ h => (pure_eq_done_iff.mp h).2

namespace Grammatical

/-- A reader may go on with steps that take nothing, such as the choice of a result. -/
theorem bind {r : Reader α} {f : α → Reader β} (hr : Grammatical r) (hf : ∀ a, Keeps (f a)) :
    Grammatical (r >>= f) := by
  intro c b c' h
  obtain ⟨a, c₁, ha, hb⟩ := bind_eq_done_iff.mp h
  exact hf a hb ▸ hr ha

theorem map {r : Reader α} (hr : Grammatical r) (f : α → β) : Grammatical (do return f (← r)) :=
  hr.bind fun _ => keeps_pure _

/-- A reader that is never done has nothing to answer for. -/
theorem of_ensures {r : Reader α} (h : Ensures r fun _ => False) : Grammatical r :=
  fun _ _ _ hdone => (h hdone).elim

/-- **Where a reader looks at the next token first**, it is enough to show what it takes from this
token on. This is how nearly all readers of values begin. -/
theorem token {f : Option Char → Reader α}
    (h : ∀ ⦃x c a c'⦄, c.rest.head? = x → f x c = .done a c' → Consumes c c') :
    Grammatical (token >>= f) :=
  fun _ _ _ hdone => (h rfl hdone).of_pastBlanks

end Grammatical

/-- One of the three words is the text of a value. -/
theorem consumes_of_word {w : List Char} {v : Tree} (hw : Spells w v) {a : α} {c c' : Cursor}
    {b : α} (h : (do word w; pure a : Reader α) c = .done b c') : Consumes c c' := by
  obtain ⟨⟨⟩, c₁, hword, h⟩ := bind_eq_done_iff.mp h
  obtain ⟨-, rfl⟩ := pure_eq_done_iff.mp h
  exact .of_spells (rest_of_word hword) hw

/-- A string is the text of a value, whether it is kept or skipped. -/
theorem consumes_of_string {c c' : Cursor} (hx : c.rest.head? = some '"')
    (h : skipQuotedRest c.advance = .done () c') : Consumes c c' := by
  obtain ⟨t, s, ht, hs⟩ := spells_of_skipQuotedRest h
  exact .of_spells (by rw [rest_advance hx, ht]; rfl) (.string hs)

/-- So is a number. -/
theorem consumes_of_skipNumber {c c' : Cursor} (h : skipNumber c = .done () c') :
    Consumes c c' := by
  obtain ⟨p, c₁, hp, h⟩ := bind_eq_done_iff.mp h
  obtain ⟨-, rfl⟩ := pure_eq_done_iff.mp h
  obtain ⟨t, ht, hv⟩ := spellsNumber_of_numberParts hp
  exact .of_spells ht (.number hv)

/-- **A number that is kept** could have been skipped, and so it is one. What is out of range is
refused, and there is nothing to show for it. -/
theorem grammatical_number : Grammatical number :=
  fun _ _ _ h => consumes_of_skipNumber (skipNumber_of_number h)

/-- The typed readers refuse all values of other kinds, and take the same texts for those of their
own kind. -/
theorem grammatical_boolean : Grammatical boolean := by
  refine .token fun x c b c' hx h => ?_
  split at h
  · exact consumes_of_word .yes h
  · exact consumes_of_word .no h
  · exact Grammatical.of_ensures (ensures_wrongKind _ _) h

theorem grammatical_count : Grammatical count := by
  refine .token fun x c n c' hx h => ?_
  split at h
  · split at h
    · refine grammatical_number.bind (fun n => ?_) h
      cases n with
      | whole i =>
          simp only
          cases i.toUInt64? with
          | some m => exact keeps_pure m
          | none => exact nofun
      | real _ _ => exact nofun
    · exact Grammatical.of_ensures (ensures_wrongKind _ _) h
  · exact Grammatical.of_ensures (ensures_wrongKind _ _) h

theorem grammatical_positive : Grammatical positive := by
  refine grammatical_count.bind fun n => ?_
  split
  · exact nofun
  · exact keeps_pure n

theorem grammatical_string (expected : String) : Grammatical (string expected) := by
  refine .token fun x c s c' hx h => ?_
  split at h
  · rw [eat_bind] at h
    exact consumes_of_string hx (skipQuotedRest_of_quotedRest h)
  · exact Grammatical.of_ensures (ensures_wrongKind _ _) h

/-! ### Lists -/

/-- `ConsumesItems first c c'`: from `c` to `c'` stand the items of a list and its end. -/
def ConsumesItems (first : Bool) (c c' : Cursor) : Prop :=
  ∃ (ts : List Char) (is : List (List Char × Tree)), c.rest = ts ++ c'.rest ∧
    Row ']' first ts (is.map Prod.fst) ∧ ∀ i ∈ is, Spells i.1 i.2

/-- Behind the opening bracket, the items and the closing bracket make up a list. -/
theorem Consumes.of_items {c c' : Cursor} (hx : c.rest.head? = some '[')
    (h : ConsumesItems true c.advance c') : Consumes c c' := by
  obtain ⟨ts, is, hts, hrow, hspells⟩ := h
  exact .of_spells (by rw [rest_advance hx, hts]; rfl) (.array hrow hspells)

namespace ConsumesItems

/-- The items of a list may end at once, whichever item is due. -/
theorem close {first : Bool} {c c' : Cursor} (h : closeList c = .done () c') :
    ConsumesItems first c c' := by
  obtain ⟨hx, rfl⟩ := closeList_eq_done_iff.mp h
  obtain ⟨bs, hbs, hrest⟩ := exists_blank_cons hx
  exact ⟨bs ++ [']'], [], by rw [hrest, List.append_assoc]; rfl, .nil hbs, nofun⟩

/-- The first item stands behind blanks. -/
theorem first {c c₁ c' : Cursor} (h : Consumes c c₁) (hrest : ConsumesItems false c₁ c') :
    ConsumesItems true c c' := by
  obtain ⟨bs, t, v, ht, hbs, hv⟩ := h
  obtain ⟨ts, is, hts, hrow, hspells⟩ := hrest
  exact ⟨bs ++ (t ++ ts), (t, v) :: is, by rw [ht, hts, List.append_assoc, List.append_assoc],
    .first hbs hrow, List.forall_mem_cons.mpr ⟨hv, hspells⟩⟩

/-- Each other item stands behind a comma, with blanks on both sides. -/
theorem next {c c₁ c' : Cursor} (hx : c.pastBlanks.rest.head? = some ',')
    (h : Consumes c.pastBlanks.advance c₁) (hrest : ConsumesItems false c₁ c') :
    ConsumesItems false c c' := by
  obtain ⟨bs, hbs, hcomma⟩ := exists_blank_cons hx
  obtain ⟨bs', t, v, ht, hbs', hv⟩ := h
  obtain ⟨ts, is, hts, hrow, hspells⟩ := hrest
  refine ⟨bs ++ ',' :: (bs' ++ (t ++ ts)), (t, v) :: is, ?_, .next hbs hbs' hrow,
    List.forall_mem_cons.mpr ⟨hv, hspells⟩⟩
  rw [hcomma, ht, hts, List.append_assoc, List.cons_append, List.append_assoc, List.append_assoc]

/-- An item behind what says that there is one, and the items behind it. -/
theorem more {first : Bool} {c c₁ c₂ c' : Cursor} (hmore : hasItem first c = .done true c₁)
    (h : Consumes c₁ c₂) (hrest : ConsumesItems false c₂ c') : ConsumesItems first c c' := by
  cases first with
  | true =>
      obtain ⟨rfl, -⟩ := hasItem_eq_true_iff.mp hmore
      exact ConsumesItems.first h.of_pastBlanks hrest
  | false =>
      obtain ⟨hx, rfl, -⟩ := hasItem_eq_true_iff.mp hmore
      exact ConsumesItems.next hx h.of_pastBlanks hrest

end ConsumesItems

theorem closeList_pastBlanks (c : Cursor) : closeList c.pastBlanks = closeList c := by
  rw [closeList, token_bind, token_bind, Cursor.pastBlanks_pastBlanks]

/-- **The items that the loop reads** are those of a list. The induction is on the items, and the
bracket behind the last one ends it. -/
theorem Items.consumes {item : Reader α} (hitem : Grammatical item) {first : Bool}
    {c c₁ c' : Cursor} {as : List α} (h : Items item first c as c₁)
    (hend : closeList c₁ = .done () c') : ConsumesItems first c c' := by
  induction h with
  | nil hmore =>
      obtain ⟨-, rfl⟩ := hasItem_eq_false_iff.mp hmore
      exact .close (closeList_pastBlanks _ ▸ hend)
  | cons hmore ha _ ih => exact .more hmore (hitem ha) (ih hend)

/-- A list that is not too deep is a value, if its items are. -/
theorem consumes_of_listOf {levels : Nat} {item : Nat → Reader α}
    (hitem : ∀ n, Grammatical (item n)) {c c' : Cursor} {as : List α}
    (hx : c.rest.head? = some '[') (h : listOf levels item c = .done as c') : Consumes c c' := by
  cases levels with
  | zero => cases h
  | succ inner =>
      obtain ⟨-, c₁, has, hend⟩ := listOf_eq_done_iff.mp h
      exact .of_items hx (has.consumes (hitem inner) hend)

/-- **A list that is read** is a value: between its brackets stand items with commas, and each is a
value as its own reader takes only such. -/
theorem grammatical_list {item : Nat → Reader α} (hitem : ∀ n, Grammatical (item n))
    (levels : Nat) : Grammatical (list levels item) := by
  refine .token fun x c as c' hx h => ?_
  split at h
  · exact consumes_of_listOf hitem hx h
  · exact Grammatical.of_ensures (ensures_wrongKind _ _) h

/-! ### Objects -/

/-- `ConsumesMember c c'`: from `c` to `c'` stands a member of an object. -/
def ConsumesMember (c c' : Cursor) : Prop :=
  ∃ m : Member, c.rest = m.chars ++ c'.rest ∧ m.Keyed ∧ Spells m.text m.tree

/-- A member is a key, a colon and a value. -/
theorem ConsumesMember.intro {c c₁ c₂ c' : Cursor} (hx : c.rest.head? = some '"')
    (hkey : skipQuotedRest c.advance = .done () c₁) (hcolon : colon c₁ = .done () c₂)
    (h : Consumes c₂ c') : ConsumesMember c c' := by
  obtain ⟨key, name, hname, hs⟩ := spells_of_skipQuotedRest hkey
  obtain ⟨hy, rfl⟩ := colon_eq_done_iff.mp hcolon
  obtain ⟨before, hbefore, hrest⟩ := exists_blank_cons hy
  obtain ⟨after, t, v, ht, hafter, hv⟩ := h
  refine ⟨⟨key, before, after, t, name, v⟩, ?_, ⟨hs, hbefore, hafter⟩, hv⟩
  rw [Member.chars_append, rest_advance hx, hname, hrest, ht]

/-- `ConsumesMembers first c c'`: from `c` to `c'` stand the members of an object and its end. -/
def ConsumesMembers (first : Bool) (c c' : Cursor) : Prop :=
  ∃ (ts : List Char) (ms : List Member), c.rest = ts ++ c'.rest ∧
    Row '\x7d' first ts (ms.map Member.chars) ∧ (∀ m ∈ ms, m.Keyed) ∧
    ∀ m ∈ ms, Spells m.text m.tree

/-- Behind the opening bracket, the members and the closing bracket make up an object. -/
theorem Consumes.of_members {c c' : Cursor} (hx : c.rest.head? = some '\x7b')
    (h : ConsumesMembers true c.advance c') : Consumes c c' := by
  obtain ⟨ts, ms, hts, hrow, hkeyed, hspells⟩ := h
  exact .of_spells (by rw [rest_advance hx, hts]; rfl) (.object hrow hkeyed hspells)

namespace ConsumesMembers

/-- The members of an object may end at once. -/
theorem close {first : Bool} {c c' : Cursor} (h : closeObject c = .done () c') :
    ConsumesMembers first c c' := by
  obtain ⟨hx, rfl⟩ := closeObject_eq_done_iff.mp h
  obtain ⟨bs, hbs, hrest⟩ := exists_blank_cons hx
  exact ⟨bs ++ ['\x7d'], [], by rw [hrest, List.append_assoc]; rfl, .nil hbs, nofun, nofun⟩

/-- The first member stands behind blanks. -/
theorem first {c c₁ c' : Cursor} (h : ConsumesMember c.pastBlanks c₁)
    (hrest : ConsumesMembers false c₁ c') : ConsumesMembers true c c' := by
  obtain ⟨bs, hbs, hblank⟩ := exists_blank c
  obtain ⟨m, hm, hkeyed, hv⟩ := h
  obtain ⟨ts, ms, hts, hrow, hkeyeds, hspells⟩ := hrest
  refine ⟨bs ++ (m.chars ++ ts), m :: ms, ?_, .first hbs hrow,
    List.forall_mem_cons.mpr ⟨hkeyed, hkeyeds⟩, List.forall_mem_cons.mpr ⟨hv, hspells⟩⟩
  rw [hblank, hm, hts, List.append_assoc, List.append_assoc]

/-- Each other member stands behind a comma, with blanks on both sides. -/
theorem next {c c₁ c' : Cursor} (hx : c.pastBlanks.rest.head? = some ',')
    (h : ConsumesMember c.pastBlanks.advance.pastBlanks c₁) (hrest : ConsumesMembers false c₁ c') :
    ConsumesMembers false c c' := by
  obtain ⟨bs, hbs, hcomma⟩ := exists_blank_cons hx
  obtain ⟨bs', hbs', hblank⟩ := exists_blank c.pastBlanks.advance
  obtain ⟨m, hm, hkeyed, hv⟩ := h
  obtain ⟨ts, ms, hts, hrow, hkeyeds, hspells⟩ := hrest
  refine ⟨bs ++ ',' :: (bs' ++ (m.chars ++ ts)), m :: ms, ?_, .next hbs hbs' hrow,
    List.forall_mem_cons.mpr ⟨hkeyed, hkeyeds⟩, List.forall_mem_cons.mpr ⟨hv, hspells⟩⟩
  rw [hcomma, hblank, hm, hts, List.append_assoc, List.cons_append, List.append_assoc,
    List.append_assoc]

/-- A member behind what says that there is one, and the members behind it. -/
theorem more {first : Bool} {c c₁ c₂ c' : Cursor} (hmore : hasMember first c = .done true c₁)
    (h : ConsumesMember c₁ c₂) (hrest : ConsumesMembers false c₂ c') :
    ConsumesMembers first c c' := by
  cases first with
  | true =>
      obtain ⟨rfl, -⟩ := hasMember_eq_done_iff.mp hmore
      exact ConsumesMembers.first h hrest
  | false =>
      obtain ⟨hx, rfl, -⟩ := hasMember_eq_done_iff.mp hmore
      exact ConsumesMembers.next hx h hrest

end ConsumesMembers

theorem closeObject_pastBlanks (c : Cursor) : closeObject c.pastBlanks = closeObject c := by
  rw [closeObject, token_bind, token_bind, Cursor.pastBlanks_pastBlanks]

/-- `GrammaticalMember member`: behind a key, `member` takes a colon and a value. -/
def GrammaticalMember (member : String → σ → Reader σ) : Prop :=
  ∀ ⦃k s c s' c'⦄, member k s c = .done s' c' → ∃ c₁, colon c = .done () c₁ ∧ Consumes c₁ c'

/-- A member whose value is put under its key takes a colon and this value. -/
theorem Grammatical.member {r : Reader α} (hr : Grammatical r) (g : String → α → σ → σ) :
    GrammaticalMember fun k s => do colon; return g k (← r) s := by
  intro k s c s' c' h
  obtain ⟨⟨⟩, c₁, hcolon, h⟩ := bind_eq_done_iff.mp h
  exact ⟨c₁, hcolon, hr.map _ h⟩

/-- **The members that the loop reads** are those of an object, by induction on them. A first member
has no comma in front, the others have one. -/
theorem Members.consumes {member : String → σ → Reader σ} (hmember : GrammaticalMember member)
    {s s' : σ} {first : Bool} {c c₁ c' : Cursor} {n : Nat} (h : Members member s first c n s' c₁)
    (hend : closeObject c₁ = .done () c') : ConsumesMembers first c c' := by
  induction h with
  | nil hmore =>
      obtain ⟨-, rfl⟩ := hasMember_eq_done_iff.mp hmore
      exact .close (closeObject_pastBlanks _ ▸ hend)
  | @cons _ _ _ first _ _ _ _ _ _ _ hmore hk hs _ ih =>
      obtain ⟨c₆, hcolon, hv⟩ := hmember hs
      have hquote := (hasMember_eq_done_iff.mp hmore)
      refine .more hmore (.intro ?_ (quoted_of_key hk) hcolon hv) (ih hend)
      cases first with
      | true => exact hquote.2
      | false => exact hquote.2.2

/-- An object that is not too deep is a value, if its members are. -/
theorem consumes_of_objectOf {levels : Nat} {member : Nat → String → σ → Reader σ}
    (hmember : ∀ n, GrammaticalMember (member n)) {s s' : σ} {c c' : Cursor}
    (hx : c.rest.head? = some '\x7b') (h : objectOf levels member s c = .done s' c') :
    Consumes c c' := by
  cases levels with
  | zero => cases h
  | succ inner =>
      obtain ⟨c₁, ⟨n, -, hms⟩, hend⟩ := objectOf_eq_done_iff.mp h
      exact .of_members hx (hms.consumes (hmember inner) hend)

/-! ### Any value -/

/-- A value that is no list and no object is taken as a whole. -/
theorem Scalar.consumes {v : Value} {c c' : Cursor} (h : Scalar c v c') : Consumes c c' := by
  refine .of_pastBlanks ?_
  cases h with
  | null h => exact .of_spells (rest_of_word h) .null
  | true h => exact .of_spells (rest_of_word h) .yes
  | false h => exact .of_spells (rest_of_word h) .no
  | string hx h => exact consumes_of_string hx (skipQuotedRest_of_quotedRest h)
  | number _ _ h => exact grammatical_number h

/-- **A value that is kept** is a value. The induction is on the levels that are left: each list or
object leaves one less to what is in it. -/
theorem grammatical_value (levels : Nat) : Grammatical (value levels) := by
  induction levels with
  | zero =>
      rw [value]
      refine .token fun x c v c' hx h => ?_
      split at h
      · cases h
      · cases h
      · exact (scalar_eq_done_iff.mp h).consumes
  | succ inner ih =>
      rw [value]
      refine .token fun x c v c' hx h => ?_
      split at h
      · obtain ⟨vs, c₁, hvs, h⟩ := bind_eq_done_iff.mp h
        obtain ⟨-, rfl⟩ := pure_eq_done_iff.mp h
        exact consumes_of_listOf (fun _ => ih) hx hvs
      · obtain ⟨ms, c₁, hms, h⟩ := bind_eq_done_iff.mp h
        obtain ⟨-, rfl⟩ := pure_eq_done_iff.mp h
        exact consumes_of_objectOf (fun _ => ih.member Dictionary.put) hx hms
      · exact (scalar_eq_done_iff.mp h).consumes

/-- So is an object that is kept as a dictionary. -/
theorem grammatical_map (levels : Nat) : Grammatical (map levels) := by
  refine .token fun x c d c' hx h => ?_
  split at h
  · exact consumes_of_objectOf (fun n => (grammatical_value n).member Dictionary.put) hx h
  · exact Grammatical.of_ensures (ensures_wrongKind _ _) h

/-! ### Skipping -/

/-- What is skipped is a value, the items of a list or the members of an object. -/
structure SkipConsumes (n : Nat) : Prop where
  value : Grammatical (skip n)
  items : ∀ ⦃first c c'⦄, skip.skipItems n first c = .done () c' → ConsumesItems first c c'
  members : ∀ ⦃first c c'⦄, skip.skipMembers n first c = .done () c' → ConsumesMembers first c c'

/-- One step of skipping: a value, if lists and objects are skipped as they should be with one step
less. -/
theorem SkipConsumes.succ_value {n : Nat} (ih : SkipConsumes n) : Grammatical (skip (n + 1)) := by
  rw [skip]
  refine .token fun x c a c' hx h => ?_
  split at h
  · cases h
  · exact .of_spells (rest_of_word h) .null
  · exact .of_spells (rest_of_word h) .yes
  · exact .of_spells (rest_of_word h) .no
  · exact consumes_of_string hx h
  · exact .of_items hx (ih.items h)
  · exact .of_members hx (ih.members h)
  · split at h
    · exact consumes_of_skipNumber h
    · cases h

/-- The items of a list, one of them and then the others, with one step less for each. An empty list
ends where it begins. -/
theorem SkipConsumes.succ_items {n : Nat} (ih : SkipConsumes n) {first : Bool} {c c' : Cursor}
    (h : skip.skipItems (n + 1) first c = .done () c') : ConsumesItems first c c' := by
  rw [skip.skipItems, token_bind] at h
  generalize hx : c.pastBlanks.rest.head? = x at h
  split at h
  · cases h
  · exact .close (closeList_eq_done_iff.mpr ⟨hx, by cases h; rfl⟩)
  · next x _ =>
      cases first with
      | true =>
          obtain ⟨⟨⟩, c₁, hskip, h⟩ := bind_eq_done_iff.mp h
          exact .first (ih.value hskip).of_pastBlanks (ih.items h)
      | false =>
          by_cases hcomma : x = ','
          · subst hcomma
            obtain ⟨⟨⟩, c₁, heat, h⟩ := bind_eq_done_iff.mp h
            cases heat
            obtain ⟨⟨⟩, c₁, hskip, h⟩ := bind_eq_done_iff.mp h
            exact .next hx (ih.value hskip) (ih.items h)
          · simp only [if_neg hcomma] at h
            cases h

/-- `skipMember n` goes on with skipping an object where a key is due. -/
def skipMember (n : Nat) : Reader Unit := do
  match ← token with
  | none => here .endInObject
  | some '"' => do
      eat
      skipQuotedRest
      colon
      skip n
      skip.skipMembers n false
  | some _ => ahead .keyNotString

/-- A member whose key is due, and the members behind it. -/
theorem SkipConsumes.member {n : Nat} (ih : SkipConsumes n) {c c' : Cursor}
    (h : skipMember n c = .done () c') :
    ∃ c₁, ConsumesMember c.pastBlanks c₁ ∧ ConsumesMembers false c₁ c' := by
  rw [skipMember, token_bind] at h
  generalize hx : c.pastBlanks.rest.head? = x at h
  split at h
  · cases h
  · obtain ⟨⟨⟩, c₁, heat, h⟩ := bind_eq_done_iff.mp h
    cases heat
    obtain ⟨⟨⟩, c₂, hkey, h⟩ := bind_eq_done_iff.mp h
    obtain ⟨⟨⟩, c₃, hcolon, h⟩ := bind_eq_done_iff.mp h
    obtain ⟨⟨⟩, c₄, hskip, h⟩ := bind_eq_done_iff.mp h
    exact ⟨c₄, .intro hx hkey hcolon (ih.value hskip), ih.members h⟩
  · cases h

/-- The members of an object, one of them and then the others, in the same way. In front of each
value there is a key with its colon. -/
theorem SkipConsumes.succ_members {n : Nat} (ih : SkipConsumes n) {first : Bool} {c c' : Cursor}
    (h : skip.skipMembers (n + 1) first c = .done () c') : ConsumesMembers first c c' := by
  rw [skip.skipMembers, token_bind] at h
  generalize hx : c.pastBlanks.rest.head? = x at h
  split at h
  · cases h
  · exact .close (closeObject_eq_done_iff.mpr ⟨hx, by cases h; rfl⟩)
  · next x _ =>
      cases first with
      | true =>
          obtain ⟨c₁, hm, hms⟩ := ih.member h
          exact .first (Cursor.pastBlanks_pastBlanks c ▸ hm) hms
      | false =>
          by_cases hcomma : x = ','
          · subst hcomma
            obtain ⟨⟨⟩, c₁, heat, h⟩ := bind_eq_done_iff.mp h
            cases heat
            obtain ⟨c₂, hm, hms⟩ := ih.member h
            exact .next hx hm hms
          · simp only [Bool.not_false, if_true, if_neg hcomma] at h
            cases h

/-- **All three hold for any number of steps**, by induction on it: a value, the items of a list,
and the members of an object call each other. -/
theorem skipConsumes (n : Nat) : SkipConsumes n := by
  induction n with
  | zero => exact ⟨nofun, nofun, nofun⟩
  | succ n ih =>
      exact ⟨ih.succ_value, fun _ _ _ => ih.succ_items, fun _ _ _ => ih.succ_members⟩

/-- **What is skipped** is a value, whatever it holds: numbers out of range and halves of pairs are
in the grammar as well. -/
theorem grammatical_skipValue : Grammatical skipValue := by
  intro c a c' h
  exact (skipConsumes _).value h

/-! ### Names -/

/-- The name is found without taking anything. -/
theorem keeps_variant (ofName? : String → Option α) (expected name : String) :
    Keeps (variant ofName? expected name) := by
  unfold variant
  cases ofName? name with
  | some a => exact keeps_pure a
  | none => exact nofun

/-- The name in an object is a key like any other. -/
theorem quoted_of_firstKey {k : String} {c c' : Cursor} (h : firstKey c = .done k c') :
    c.pastBlanks.rest.head? = some '"' ∧ skipQuotedRest c.pastBlanks.advance = .done () c' := by
  rw [firstKey, token_bind] at h
  generalize hx : c.pastBlanks.rest.head? = x at h
  split at h
  · exact ⟨rfl, quoted_of_key h⟩
  · cases h
  · cases h
  · cases h

/-- An object that is a choice ends behind its only member. -/
theorem closeObject_of_choiceEnd {a b : α} {c c' : Cursor} (h : choiceEnd a c = .done b c') :
    closeObject c = .done () c' := by
  rw [choiceEnd, token_bind] at h
  generalize hx : c.pastBlanks.rest.head? = x at h
  split at h
  · obtain ⟨⟨⟩, c₁, heat, h⟩ := bind_eq_done_iff.mp h
    cases heat
    obtain ⟨-, rfl⟩ := pure_eq_done_iff.mp h
    exact closeObject_eq_done_iff.mpr ⟨hx, rfl⟩
  · cases h
  · cases h

/-- Under the name stands a value, and then the object ends. -/
theorem null_of_choiceRest {a b : α} {c c' : Cursor} (h : choiceRest a c = .done b c') :
    ∃ c₁ c₂, colon c = .done () c₁ ∧ Consumes c₁ c₂ ∧ closeObject c₂ = .done () c' := by
  obtain ⟨⟨⟩, c₁, hcolon, h⟩ := bind_eq_done_iff.mp h
  rw [token_bind] at h
  generalize c₁.pastBlanks.rest.head? = x at h
  split at h
  · obtain ⟨⟨⟩, c₂, hword, h⟩ := bind_eq_done_iff.mp h
    have hnull : Consumes c₁ c₂ := .of_pastBlanks (.of_spells (rest_of_word hword) .null)
    exact ⟨c₁, c₂, hcolon, hnull, closeObject_of_choiceEnd h⟩
  · obtain ⟨_, c₂, hwrong, h⟩ := bind_eq_done_iff.mp h
    exact (ensures_wrongKind _ (fun _ => False) hwrong).elim

/-- **A choice that is read** is a value, a string or an object with one member. The first token
tells which of the two it is. -/
theorem grammatical_choice (levels : Nat) (ofName? : String → Option α) (expected : String) :
    Grammatical (choice levels ofName? expected) := by
  refine .token fun x c a c' hx h => ?_
  split at h
  · obtain ⟨k, c₁, hkey, h⟩ := bind_eq_done_iff.mp h
    obtain rfl := keeps_variant _ _ _ h
    exact consumes_of_string hx (quoted_of_key hkey)
  · cases levels with
    | zero => cases h
    | succ inner =>
        obtain ⟨⟨⟩, c₁, heat, h⟩ := bind_eq_done_iff.mp h
        cases heat
        obtain ⟨k, c₂, hkey, h⟩ := bind_eq_done_iff.mp h
        obtain ⟨b, c₃, hvariant, h⟩ := bind_eq_done_iff.mp h
        obtain rfl := keeps_variant _ _ _ hvariant
        obtain ⟨hquote, hquoted⟩ := quoted_of_firstKey hkey
        obtain ⟨c₄, c₅, hcolon, hnull, hend⟩ := null_of_choiceRest h
        exact .of_members hx (.first (.intro hquote hquoted hcolon hnull) (.close hend))
  · cases h
  · cases h

/-! ### Records -/

/-- Known members are read by their fields, and all others are skipped. Both are values, so what the
loop over the members needs is there. -/
theorem grammaticalMember_member {slots : List (Slot σ)} {inner : Nat}
    (hslots : ∀ slot ∈ slots, ∀ s, Grammatical (slot.read inner s)) :
    GrammaticalMember (member slots inner) := by
  intro k s c s' c' h
  unfold member at h
  cases hfind : slots.find? (·.name = k) with
  | some slot =>
      simp only [hfind] at h
      split at h
      · cases h
      · obtain ⟨⟨⟩, c₁, hcolon, h⟩ := bind_eq_done_iff.mp h
        exact ⟨c₁, hcolon, hslots slot (List.mem_of_find?_eq_some hfind) s h⟩
  | none =>
      simp only [hfind] at h
      obtain ⟨⟨⟩, c₁, hcolon, h⟩ := bind_eq_done_iff.mp h
      obtain ⟨⟨⟩, c₂, hskip, h⟩ := bind_eq_done_iff.mp h
      obtain ⟨-, rfl⟩ := pure_eq_done_iff.mp h
      exact ⟨c₁, hcolon, grammatical_skipValue hskip⟩

/-- A record may be a list of its fields, each of which takes a value. Induction on the fields;
where the list ends early, the others are left as they are. -/
theorem consumes_of_inOrder {slots : List (Slot σ)} {inner : Nat}
    (hslots : ∀ slot ∈ slots, ∀ s, Grammatical (slot.read inner s)) {first : Bool} {s s' : σ}
    {c c₁ c' : Cursor} (h : inOrder inner slots s first c = .done s' c₁)
    (hend : closeList c₁ = .done () c') : ConsumesItems first c c' := by
  induction slots generalizing first s c with
  | nil =>
      obtain ⟨-, rfl⟩ := pure_eq_done_iff.mp h
      exact .close hend
  | cons slot slots ih =>
      obtain ⟨hslot, hslots⟩ := List.forall_mem_cons.mp hslots
      obtain ⟨more, c₂, hmore, h⟩ := bind_eq_done_iff.mp h
      cases more with
      | false =>
          obtain ⟨-, rfl⟩ := pure_eq_done_iff.mp h
          obtain ⟨-, rfl⟩ := hasItem_eq_false_iff.mp hmore
          exact .close (closeList_pastBlanks _ ▸ hend)
      | true =>
          obtain ⟨s₁, c₃, hread, h⟩ := bind_eq_done_iff.mp h
          exact .more hmore (hslot s hread) (ih hslots h)

/-- **A record that is read** is a value: an object, or a list of its fields. Its first token
decides, and nothing is read of any other. -/
theorem grammatical_record {slots : List (Slot σ)} {ofObject ofList : σ → Reader α}
    (hslots : ∀ inner, ∀ slot ∈ slots, ∀ s, Grammatical (slot.read inner s))
    (hobject : ∀ s, Keeps (ofObject s)) (hlist : ∀ s, Keeps (ofList s)) (expected : String)
    (levels : Nat) (s : σ) :
    Grammatical (record expected levels slots s ofObject ofList) := by
  intro c a c' h
  rw [record, remaining_bind] at h
  -- The first token says whether it is a list of fields or an object, or neither.
  refine Grammatical.token (fun x c a c' hx h => ?_) h
  split at h
  · cases levels with
    | zero => cases h
    | succ inner =>
        obtain ⟨⟨⟩, c₁, heat, h⟩ := bind_eq_done_iff.mp h
        cases heat
        obtain ⟨c₂, hbody, hend⟩ := enclosed_eq_done_iff.mp h
        obtain ⟨s', c₃, hfields, hbody⟩ := bind_eq_done_iff.mp hbody
        obtain rfl := hlist s' hbody
        exact .of_items hx (consumes_of_inOrder (hslots inner) hfields hend)
  · cases levels with
    | zero => cases h
    | succ inner =>
        obtain ⟨⟨⟩, c₁, heat, h⟩ := bind_eq_done_iff.mp h
        cases heat
        obtain ⟨c₂, hbody, hend⟩ := enclosed_eq_done_iff.mp h
        obtain ⟨s', c₃, hmembers, hbody⟩ := bind_eq_done_iff.mp hbody
        obtain rfl := hobject s' hbody
        obtain ⟨n, -, hmembers⟩ := members_eq_done_iff.mp hmembers
        exact .of_members hx (hmembers.consumes (grammaticalMember_member (hslots inner)) hend)
  · exact Grammatical.of_ensures (ensures_wrongKind _ _) h

/-! ### Whole texts -/

/-- **A whole text that is read** is a value, with blanks around it: the loop that reads it refuses
whatever else is left. -/
theorem Grammatical.writes_of_run {r : Reader α} (hr : Grammatical r) {text : String} {a : α}
    (h : r.run text = .ok a) : ∃ v, Writes text v := by
  obtain ⟨c, c', hdone, hend⟩ := run_eq_ok_iff.mp h
  obtain ⟨bs, t, v, ht, hbs, hv⟩ := hr hdone
  refine ⟨v, bs, t, c.rest, ht, hbs, ?_, hv⟩
  rw [atEnd, token_bind] at hend
  cases hx : c.pastBlanks.rest with
  | nil =>
      obtain ⟨bs', hbs', hrest⟩ := exists_blank c
      rw [hx, List.append_nil] at hrest
      exact hrest ▸ hbs'
  | cons x xs =>
      rw [hx] at hend
      cases hend

end Reader

end FacetQuery.Json
