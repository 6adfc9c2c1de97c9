import FacetQuery.Proofs.Decimal.Integer
import FacetQuery.Proofs.Json.Reader.Takes

/-!
# Json — Reader — Numbers that were written

* `NumberParts.Spelled`: which parts of a number the grammar takes; `SpellsNumber`: the characters
  that spell them. `NumberParts.chars` are those that are written.
* `Reader.takes_numberParts`: the parts are read from these characters.
* `Reader.wholeParts`: the parts of a whole number, which are read back as it.
-/

namespace FacetQuery.Json

namespace NumberParts

/-- `fractionChars fraction` are the point and the digits behind it, if there are any. -/
def fractionChars : Option (List Char) → List Char
  | none    => []
  | some ds => '.' :: ds

/-- `Digits ds`: the characters `ds` are digits, at least one. -/
structure Digits (ds : List Char) : Prop where
  ne_nil : ds ≠ []
  isDigit : ∀ d ∈ ds, d.isDigit = true

/-- `Spelled p`: each part of `p` is made of digits, and the whole number has no leading zero. -/
structure Spelled (p : NumberParts) : Prop where
  whole : Digits p.whole
  leading : p.whole.head? = some '0' → p.whole = ['0']
  fraction : ∀ ds, p.fraction = some ds → Digits ds
  exponent : ∀ negative ds, p.exponent = some (negative, ds) → Digits ds

end NumberParts

/-- `SpellsPower cs power`: the characters `cs` are an exponent, or there is none. -/
inductive SpellsPower : List Char → Option (Bool × List Char) → Prop where
  | none : SpellsPower [] none
  | some {c : Char} {sign ds : List Char} {negative : Bool} : c = 'e' ∨ c = 'E' →
      SpellsSign sign negative → SpellsPower (c :: (sign ++ ds)) (some (negative, ds))

/-- `SpellsNumber cs p`: the characters `cs` are the number with the parts `p`. -/
inductive SpellsNumber : List Char → NumberParts → Prop where
  | intro {p : NumberParts} {power : List Char} : p.Spelled → SpellsPower power p.exponent →
      SpellsNumber ((if p.negative then ['-'] else []) ++
        (p.whole ++ (NumberParts.fractionChars p.fraction ++ power))) p

namespace NumberParts

/-- `exponentChars exponent` are the `e`, the sign and the digits of an exponent, if there is
one. -/
def exponentChars : Option (Bool × List Char) → List Char
  | none                => []
  | some (negative, ds) => 'e' :: (if negative then '-' else '+') :: ds

/-- `chars p` are the characters of `p`. -/
def chars (p : NumberParts) : List Char :=
  (if p.negative then ['-'] else []) ++ (p.whole ++ (fractionChars p.fraction ++
    exponentChars p.exponent))

theorem spellsPower_exponentChars (exponent : Option (Bool × List Char)) :
    SpellsPower (exponentChars exponent) exponent := by
  rcases exponent with _ | ⟨_ | _, ds⟩
  · exact .none
  · exact .some (.inl rfl) .plus
  · exact .some (.inl rfl) .minus

/-- The characters that are written for a number are one of its spellings. -/
theorem Spelled.spellsNumber {p : NumberParts} (h : p.Spelled) : SpellsNumber p.chars p :=
  .intro h (spellsPower_exponentChars p.exponent)

end NumberParts

namespace Reader

open NumberParts

/-- `Stops cs`: the characters `cs` do not go on with a digit. -/
def Stops (cs : List Char) : Prop :=
  ∀ x, cs.head? = some x → x.isDigit = false

/-- Where no more of a number can follow, no digit does. -/
theorem Follows.stops {cs : List Char} (h : Follows cs) : Stops cs := by
  intro x hx
  cases hd : x.isDigit with
  | false => rfl
  | true => exact absurd (isNumeral_of_isDigit hd) (by simp [h x hx])

/-- Digits are taken as far as they go, which is why no digit may stand behind them. -/
theorem takes_requireDigits (f : Fault) {ds rest : List Char} (h : Digits ds) (hrest : Stops rest) :
    Takes (requireDigits f) ds ds rest := by
  have hstop : rest.takeWhile Char.isDigit = [] ∧ rest.dropWhile Char.isDigit = rest := by
    cases rest with
    | nil => exact ⟨rfl, rfl⟩
    | cons x xs =>
        have hx : ¬ x.isDigit = true := by simp [hrest x rfl]
        exact ⟨List.takeWhile_cons_of_neg hx, List.dropWhile_cons_of_neg hx⟩
  intro p
  refine ⟨p.pastAll ds, bind_eq_done_iff.mpr ⟨ds, ⟨rest, p.pastAll ds⟩, ?_, ?_⟩⟩
  · simp only [takeWhile, List.takeWhile_append_of_pos h.isDigit,
      List.dropWhile_append_of_pos h.isDigit, hstop, List.append_nil]
  · rw [if_pos h.ne_nil]
    rfl

/-- The digits in front of the point are one zero, or they do not begin with one. -/
theorem takes_wholeDigits (f : Fault) {ds rest : List Char} (h : Digits ds)
    (hleading : ds.head? = some '0' → ds = ['0']) (hrest : Stops rest) :
    Takes (wholeDigits f) ds ds rest := by
  intro p
  by_cases hzero : ds.head? = some '0'
  · rw [hleading hzero]
    exact ⟨p.past '0', wholeDigits_eq_done_iff.mpr (.inl ⟨rfl, hrest, rfl, rfl⟩)⟩
  · obtain ⟨p', h'⟩ := takes_requireDigits f h hrest p
    refine ⟨p', wholeDigits_eq_done_iff.mpr (.inr ⟨?_, h'⟩)⟩
    obtain ⟨d, ds, rfl⟩ := List.exists_cons_of_ne_nil h.ne_nil
    exact hzero

/-- A point and the digits behind it are taken, or nothing where there is no point. -/
theorem takes_fractionDigits (f : Fault) {fraction : Option (List Char)} {rest : List Char}
    (h : ∀ ds, fraction = some ds → Digits ds) (hrest : Stops rest)
    (hpoint : fraction = none → rest.head? ≠ some '.') :
    Takes (fractionDigits f) (fractionChars fraction) fraction rest := by
  intro p
  rw [fractionDigits, peek_bind]
  cases fraction with
  | none =>
      refine ⟨p, ?_⟩
      have hpoint := hpoint rfl
      rcases rest with _ | ⟨x, xs⟩
      · rfl
      · have hx : x ≠ '.' := fun e => hpoint (by rw [e]; rfl)
        simp [fractionChars, hx]
  | some ds =>
      obtain ⟨p', h'⟩ := takes_requireDigits f (h ds rfl) hrest (p.past '.')
      exact ⟨p', bind_eq_done_iff.mpr ⟨(), _, rfl, bind_eq_done_iff.mpr ⟨ds, _, h', rfl⟩⟩⟩

/-- An exponent is taken in all of its spellings: either letter, either sign or none. Where none
stands, nothing that follows may look like one. -/
theorem takes_exponentDigits (f : Fault) {power : List Char} {exponent : Option (Bool × List Char)}
    {rest : List Char} (hpower : SpellsPower power exponent)
    (h : ∀ negative ds, exponent = some (negative, ds) → Digits ds) (hrest : Follows rest) :
    Takes (exponentDigits f) power exponent rest := by
  intro p
  cases hpower with
  | none =>
      refine ⟨p, ?_⟩
      rw [exponentDigits, peek_bind]
      rcases rest with _ | ⟨x, xs⟩
      · rfl
      · have hx : ¬ (x = 'e' ∨ x = 'E') := by
          rintro (rfl | rfl) <;> cases hrest _ rfl
        simp [hx]
  | @some c sign ds negative hc hsign =>
      have hdigits := h negative ds rfl
      -- The letter and the sign are passed, whichever they are.
      have hpass : ∃ q, exponentDigits f ⟨c :: (sign ++ ds) ++ rest, p⟩ =
          (do return some (negative, ← requireDigits f)) ⟨ds ++ rest, q⟩ := by
        cases hsign with
        | plus => rcases hc with rfl | rfl <;> exact ⟨_, rfl⟩
        | minus => rcases hc with rfl | rfl <;> exact ⟨_, rfl⟩
        | none =>
            have hhead : ∀ x, (ds ++ rest).head? = some x → x ≠ '-' ∧ x ≠ '+' := by
              obtain ⟨d, ds, rfl⟩ := List.exists_cons_of_ne_nil hdigits.ne_nil
              rintro _ ⟨⟩
              constructor <;> rintro rfl <;> cases hdigits.isDigit _ List.mem_cons_self
            have hminus : (ds ++ rest).head? ≠ some '-' := fun e => (hhead _ e).1 rfl
            have hplus : (ds ++ rest).head? ≠ some '+' := fun e => (hhead _ e).2 rfl
            refine ⟨p.past c, ?_⟩
            rw [exponentDigits, peek_bind]
            simp only [List.nil_append, List.cons_append, List.head?_cons, hc, if_true, eat_bind,
              peek_bind, Cursor.advance, hminus, hplus, or_self, if_false, decide_false]
      obtain ⟨q, hq⟩ := hpass
      obtain ⟨p', h'⟩ := takes_requireDigits f hdigits hrest.stops q
      exact ⟨p', hq.trans (bind_eq_done_iff.mpr ⟨ds, _, h', rfl⟩)⟩

/-- An exponent, or what stands in its place, goes on neither with a digit nor with a point. -/
theorem head?_power {power : List Char} {exponent : Option (Bool × List Char)}
    (h : SpellsPower power exponent) {rest : List Char} (hrest : Follows rest) :
    Stops (power ++ rest) ∧ (power ++ rest).head? ≠ some '.' := by
  cases h with
  | none =>
      refine ⟨hrest.stops, fun hpoint => ?_⟩
      cases hrest _ hpoint
  | some hc _ =>
      constructor
      · rintro _ ⟨⟩
        rcases hc with rfl | rfl <;> rfl
      · rintro ⟨⟩
        rcases hc with hc | hc <;> cases hc

/-- Behind the whole digits of a number comes a point, or what stands behind all of it. -/
theorem stops_fractionChars (fraction : Option (List Char)) {rest : List Char}
    (hrest : Stops rest) : Stops (fractionChars fraction ++ rest) := by
  cases fraction with
  | none => exact hrest
  | some ds =>
      intro x hx
      cases hx
      rfl

/-- A minus sign is no digit, so that the sign of a number is not ambiguous. -/
theorem head?_whole_ne_minus {ds : List Char} (h : Digits ds) (rest : List Char) :
    (ds ++ rest).head? ≠ some '-' := by
  obtain ⟨d, ds, rfl⟩ := List.exists_cons_of_ne_nil h.ne_nil
  intro hd
  cases hd
  cases h.isDigit '-' List.mem_cons_self

/-- **The parts of a number** are read from any text that spells them. Each part stops where the
next one begins, because no part begins with a digit. -/
theorem takes_numberParts (f : Fault) {t : List Char} {p : NumberParts} (h : SpellsNumber t p)
    {rest : List Char} (hrest : Follows rest) : Takes (numberParts f) t p rest := by
  obtain @⟨p, power, h, hpower⟩ := h
  obtain ⟨negative, whole, fraction, exponent⟩ := p
  have hexponent := takes_exponentDigits f hpower h.exponent hrest
  obtain ⟨hstops, hpoint⟩ := head?_power hpower hrest
  have hfraction := takes_fractionDigits f h.fraction hstops fun _ => hpoint
  have hwhole := takes_wholeDigits f h.whole h.leading (stops_fractionChars fraction hstops)
  -- What stands behind the sign is taken in the same way, with a sign and without one.
  have hparts : Takes (do
      let whole ← wholeDigits f
      let fraction ← fractionDigits f
      let exponent ← exponentDigits f
      return { negative, whole, fraction, exponent } : Reader NumberParts)
      (whole ++ (fractionChars fraction ++ power))
      ⟨negative, whole, fraction, exponent⟩ rest := by
    refine Takes.bind (by rwa [List.append_assoc]) (Takes.bind hfraction ?_)
    exact hexponent.map fun exponent => (⟨negative, whole, fraction, exponent⟩ : NumberParts)
  intro pos
  rw [numberParts, peek_bind]
  cases negative with
  | true =>
      obtain ⟨p', hp⟩ := hparts (pos.past '-')
      exact ⟨p', bind_eq_done_iff.mpr ⟨(), _, rfl, hp⟩⟩
  | false =>
      obtain ⟨p', hp⟩ := hparts pos
      refine ⟨p', ?_⟩
      -- Without a sign the text begins with a digit, so none is taken for one.
      have hhead : (whole ++ (fractionChars fraction ++ power) ++ rest).head? ≠ some '-' := by
        have hminus := head?_whole_ne_minus h.whole (fractionChars fraction ++ power ++ rest)
        simpa using hminus
      simp only [Bool.false_eq_true, if_false, List.nil_append, hhead, decide_false]
      exact hp

/-- **A number** is read from what is written for it, if its parts are in range. Behind it stands
nothing that would go on like a number. -/
theorem takes_number {p : NumberParts} (h : p.Spelled) {n : Number} (hn : p.number? = some n)
    {rest : List Char} (hrest : Follows rest) : Takes number p.chars n rest := by
  intro pos
  obtain ⟨p', hp⟩ := takes_numberParts .endInValue h.spellsNumber hrest pos
  refine ⟨p', bind_eq_done_iff.mpr ⟨p, _, hp, ?_⟩⟩
  rw [hn]
  rfl

/-! ### Whole numbers -/

/-- The first digit of a number is a zero for zero only. The induction is on the number, a digit
less at a time. -/
theorem head?_digits_ne_zero {n : Nat} (h : n ≠ 0) : (digits n).head? ≠ some '0' := by
  induction n using Nat.strongRecOn with
  | ind n ih =>
      by_cases hn : n < 10
      · have hdigit : ∀ n < 10, n ≠ 0 → [Nat.digitChar n].head? ≠ some '0' := by decide
        rw [digits, Nat.toDigits_of_lt_base hn]
        exact hdigit n hn h
      · rw [digits, Nat.toDigits_of_base_le (by decide) (by omega), List.head?_append_of_ne_nil _
          Nat.toDigits_ne_nil]
        exact ih (n / 10) (by omega) (by omega)

theorem digits_eq_of_head?_zero {n : Nat} (h : (digits n).head? = some '0') : digits n = ['0'] := by
  by_cases hn : n = 0
  · rw [hn, digits, Nat.toDigits_zero]
  · exact absurd h (head?_digits_ne_zero hn)

/-- The parts of a whole number. -/
def wholeParts (i : Integer) : NumberParts :=
  ⟨i.val < 0, digits i.val.natAbs, none, none⟩

theorem chars_wholeParts (i : Integer) : (wholeParts i).chars = (integerText i.val).toList := by
  rw [toList_integerText, wholeParts, chars, fractionChars, exponentChars]
  by_cases h : i.val < 0 <;> simp [h]

theorem spelled_wholeParts (i : Integer) : (wholeParts i).Spelled where
  whole := ⟨digits_ne_nil _, fun _ => isDigit_of_mem_digits⟩
  leading := digits_eq_of_head?_zero
  fraction := nofun
  exponent := nofun

/-- The parts of a whole number are this number, with its sign, in 64 bits. -/
theorem number?_wholeParts (i : Integer) : (wholeParts i).number? = some (.whole i) := by
  have hinteger : (wholeParts i).integer? = some i := by
    have hi := Integer.ofInt?_val i
    by_cases h : i.val < 0
    · have hne : ¬ i.val.natAbs = 0 := by omega
      have hneg : -(i.val.natAbs : Int) = i.val := by omega
      simp only [wholeParts, integer?, isWhole, h, digitsValue_digits, hne, hneg, hi,
        Option.isNone_none, Bool.and_self, decide_true, if_true, if_false]
    · have hpos : (i.val.natAbs : Int) = i.val := by omega
      simp only [wholeParts, integer?, isWhole, h, digitsValue_digits, hpos, hi,
        Option.isNone_none, Bool.and_self, decide_false, Bool.false_eq_true, if_true, if_false]
  rw [number?, hinteger]

end Reader

end FacetQuery.Json
