import FacetQuery.Proofs.Decimal.Shortest
import FacetQuery.Proofs.Json.Reader.Numerals
import FacetQuery.Proofs.Json.Reader.Scaled

/-!
# Json — Reader — Doubles that were written

The text of a double is read back as a double, though not always as the same one.

* `NumberParts.Spells`: parts that spell a text, and what they are worth.
* `NumberParts.exists_spells`: there are such parts for digits in both layouts.
* `Reader.exists_parts`: the text of any number is read as a number.
-/

namespace FacetQuery.Json

namespace NumberParts

/-- `Spells p negative cs d`: the characters of `p` are `cs`, behind a minus sign if it is negative,
and `p` is worth `d`. The whole number of `p` is short, and so is the exponent. -/
structure Spells (p : NumberParts) (negative : Bool) (cs : List Char) (d : Decimal) : Prop where
  chars : p.chars = (if negative then ['-'] else []) ++ cs
  spelled : p.Spelled
  isWhole : p.isWhole = false
  worth : p.IsWorth d
  whole : p.whole.length ≤ 16
  power : p.power.natAbs ≤ maxExponent

/-! ### Digits and zeros -/

/-- A zero behind other digits makes them ten times as much. -/
theorem digitsFrom_replicate_zero (n k : Nat) :
    digitsFrom n (List.replicate k '0') = n * 10 ^ k := by
  induction k generalizing n with
  | zero => exact (Nat.mul_one n).symm
  | succ k ih =>
      have hstep : digitsFrom n (List.replicate (k + 1) '0') =
          digitsFrom (10 * n) (List.replicate k '0') := rfl
      rw [hstep, ih, Nat.mul_comm 10, Nat.mul_assoc, Nat.pow_succ, Nat.mul_comm 10]

theorem digitsValue_append_zeros (ds : List Char) (k : Nat) :
    digitsValue (ds ++ List.replicate k '0') = digitsValue ds * 10 ^ k :=
  (digitsFrom_append 0 ds _).trans (digitsFrom_replicate_zero _ k)

/-- Zeros in front of other digits change nothing. -/
theorem digitsValue_zeros_append (k : Nat) (ds : List Char) :
    digitsValue (List.replicate k '0' ++ ds) = digitsValue ds := by
  have h := digitsFrom_append 0 (List.replicate k '0') ds
  rw [digitsFrom_replicate_zero, Nat.zero_mul] at h
  exact h

/-- As many digits are worth less than the next power of ten. -/
theorem digitsFrom_lt {n : Nat} {ds : List Char} (h : ∀ d ∈ ds, d.isDigit = true) :
    digitsFrom n ds < (n + 1) * 10 ^ ds.length := by
  induction ds generalizing n with
  | nil => exact Nat.lt_of_lt_of_eq (Nat.lt_succ_self n) (Nat.mul_one _).symm
  | cons d ds ih =>
      obtain ⟨hd, hds⟩ := List.forall_mem_cons.mp h
      have hdigit : d.toNat - '0'.toNat ≤ 9 := by
        simp only [Char.isDigit, Bool.and_eq_true, decide_eq_true_eq] at hd
        have hle : d.val.toNat ≤ 57 := hd.2
        exact Nat.sub_le_of_le_add hle
      calc digitsFrom n (d :: ds)
          < (10 * n + (d.toNat - '0'.toNat) + 1) * 10 ^ ds.length := ih hds
        _ ≤ (n + 1) * 10 * 10 ^ ds.length := Nat.mul_le_mul_right _ (by omega)
        _ = (n + 1) * 10 ^ (ds.length + 1) := by rw [Nat.mul_assoc, Nat.pow_succ, Nat.mul_comm 10]

/-- Sixteen digits fit, so nothing of a number that was written is left out when it is read. -/
theorem Spells.whole_le {p : NumberParts} {negative : Bool} {cs : List Char} {d : Decimal}
    (h : p.Spells negative cs d) : digitsValue p.whole ≤ maxSignificand := by
  have hlt : digitsValue p.whole < (0 + 1) * 10 ^ p.whole.length :=
    digitsFrom_lt h.spelled.whole.isDigit
  have hpower : 10 ^ p.whole.length ≤ 10 ^ 16 := Nat.pow_le_pow_right (by decide) h.whole
  have hmax : 10 ^ 16 ≤ maxSignificand := by decide
  omega

/-! ### The layouts -/

variable {ds : List Char} {k : Int}

/-- Digits stay digits with zeros behind them, with zeros in front of them, and in parts. -/
theorem Digits.append_zeros (h : Digits ds) (n : Nat) : Digits (ds ++ List.replicate n '0') where
  ne_nil := List.append_ne_nil_of_left_ne_nil h.ne_nil _
  isDigit d hd := by
    rcases List.mem_append.mp hd with hd | hd
    · exact h.isDigit d hd
    · exact List.eq_of_mem_replicate hd ▸ rfl

theorem Digits.zeros_append (h : Digits ds) (n : Nat) : Digits (List.replicate n '0' ++ ds) where
  ne_nil := List.append_ne_nil_of_right_ne_nil _ h.ne_nil
  isDigit d hd := by
    rcases List.mem_append.mp hd with hd | hd
    · exact List.eq_of_mem_replicate hd ▸ rfl
    · exact h.isDigit d hd

theorem Digits.take (h : Digits ds) {n : Nat} (hn : 0 < n) : Digits (ds.take n) where
  ne_nil := by
    rw [Ne, List.take_eq_nil_iff]
    exact not_or_intro (Nat.pos_iff_ne_zero.mp hn) h.ne_nil
  isDigit d hd := h.isDigit d (List.mem_of_mem_take hd)

theorem Digits.drop (h : Digits ds) {n : Nat} (hn : n < ds.length) : Digits (ds.drop n) where
  ne_nil := by
    rw [Ne, List.drop_eq_nil_iff]
    exact Nat.not_le.mpr hn
  isDigit d hd := h.isDigit d (List.mem_of_mem_drop hd)

theorem digits_zero : Digits ['0'] where
  ne_nil := List.cons_ne_nil _ _
  isDigit := by simp

/-- A whole number, with a zero behind the point. Without one, it would be read as an integer. -/
theorem spells_whole (negative : Bool) {n : Nat} (hds : Digits ds)
    (hleading : ds.head? = some '0' → ds = ['0'] ∧ n = 0) (hlength : ds.length + n ≤ 16) :
    Spells ⟨negative, ds ++ List.replicate n '0', some ['0'], none⟩ negative
      (ds ++ List.replicate n '0' ++ ['.', '0']) ⟨digitsValue ds, n⟩ where
  chars := by simp [NumberParts.chars, fractionChars, exponentChars]
  spelled.whole := hds.append_zeros n
  spelled.leading hhead := by
    rw [List.head?_append_of_ne_nil _ hds.ne_nil] at hhead
    obtain ⟨rfl, rfl⟩ := hleading hhead
    rfl
  spelled.fraction := by
    rintro _ ⟨⟩
    exact digits_zero
  spelled.exponent := nofun
  isWhole := rfl
  worth := by
    refine ⟨n + 1, ?_, ?_⟩
    · have h := digitsValue_append_zeros ds (n + 1)
      rwa [List.replicate_succ', ← List.append_assoc] at h
    · simp only [NumberParts.power, fractionDigits, Option.getD_some, List.length_singleton]
      omega
  whole := by rwa [List.length_append, List.length_replicate]
  power := Nat.zero_le _

/-- A point between digits. -/
theorem spells_point (negative : Bool) {front back : List Char} (hfront : Digits front)
    (hback : Digits back) (hleading : front.head? = some '0' → front = ['0'])
    (hlength : front.length ≤ 16) :
    Spells ⟨negative, front, some back, none⟩ negative (front ++ '.' :: back)
      ⟨digitsValue (front ++ back), -back.length⟩ where
  chars := by simp [NumberParts.chars, fractionChars, exponentChars]
  spelled.whole := hfront
  spelled.leading := hleading
  spelled.fraction := by
    rintro _ ⟨⟩
    exact hback
  spelled.exponent := nofun
  isWhole := rfl
  worth := ⟨0, (Nat.mul_one _).symm, by
    simp only [NumberParts.power, fractionDigits, Option.getD_some]
    omega⟩
  whole := hlength
  power := Nat.zero_le _

/-- Digits without an exponent: zeros behind them, a point among them, or a zero and a point in
front. Each is a number as the grammar has them. -/
theorem exists_spells_positional (negative : Bool) (hds : Digits ds)
    (hleading : ds.head? = some '0' → ds = ['0'] ∧ k = 0) (hlength : ds.length + k ≤ 16) :
    ∃ p : NumberParts, p.Spells negative (Layout.json.positional ds k) ⟨digitsValue ds, k⟩ := by
  simp only [Layout.positional, Layout.json, if_true]
  by_cases hk : 0 ≤ k
  · -- The point is behind all digits and some zeros.
    obtain ⟨n, rfl⟩ := Int.eq_ofNat_of_zero_le hk
    rw [if_pos hk, Int.toNat_natCast]
    refine ⟨_, spells_whole negative hds (fun h => ?_) (by omega)⟩
    obtain ⟨hds, hn⟩ := hleading h
    exact ⟨hds, by omega⟩
  · rw [if_neg hk]
    by_cases hpoint : 0 < ds.length + k
    · -- The point is among the digits.
      rw [if_pos hpoint]
      obtain ⟨n, hn⟩ : ∃ n : Nat, (ds.length + k).toNat = n := ⟨_, rfl⟩
      have hleads : (ds.take n).head? = some '0' → ds.take n = ['0'] := by
        rw [List.head?_take, if_neg (by omega)]
        intro h
        exact absurd (hleading h).2 (by omega)
      have hback : (-(ds.drop n).length : Int) = k := by
        rw [List.length_drop]
        omega
      have hlength : (ds.take n).length ≤ 16 := by
        rw [List.length_take]
        omega
      have hrest : Digits (ds.drop n) := hds.drop (by omega)
      have h := spells_point negative (hds.take (by omega)) hrest hleads hlength
      rw [List.take_append_drop, hback] at h
      exact ⟨_, hn ▸ h⟩
    · -- The point is in front of the digits.
      rw [if_neg hpoint]
      obtain ⟨n, hn⟩ : ∃ n : Nat, (-(ds.length + k)).toNat = n := ⟨_, rfl⟩
      have hvalue : digitsValue (['0'] ++ (List.replicate n '0' ++ ds)) = digitsValue ds :=
        digitsValue_zeros_append (n + 1) ds
      have hback : (-(List.replicate n '0' ++ ds).length : Int) = k := by
        rw [List.length_append, List.length_replicate]
        omega
      have h := spells_point negative digits_zero (hds.zeros_append n) (fun _ => rfl) (by decide)
      rw [hvalue, hback] at h
      exact ⟨_, hn ▸ h⟩

/-- One digit before the point, and an exponent. Its sign is always written, which the grammar
allows. -/
theorem spells_exponent (negative : Bool) {d : Char} (hd : d.isDigit = true)
    (fraction : Option (List Char)) (hfraction : ∀ ds, fraction = some ds → Digits ds) {e : Int}
    (he : e.natAbs ≤ maxExponent) :
    Spells ⟨negative, [d], fraction, some (e < 0, digits e.natAbs)⟩ negative
      (d :: (fractionChars fraction ++ 'e' :: (if e < 0 then '-' else '+') :: digits e.natAbs))
      ⟨digitsValue (d :: fraction.getD []), e - (fraction.getD []).length⟩ := by
  have hpower : NumberParts.power ⟨negative, [d], fraction, some (e < 0, digits e.natAbs)⟩ = e := by
    simp only [NumberParts.power, digitsValue_digits, decide_eq_true_eq]
    split <;> omega
  exact {
    chars := by simp [NumberParts.chars, exponentChars]
    spelled := {
      whole := ⟨List.cons_ne_nil _ _, by simpa using hd⟩
      leading := by simp
      fraction := hfraction
      exponent := by
        rintro _ _ ⟨⟩
        exact ⟨digits_ne_nil _, fun _ => isDigit_of_mem_digits⟩ }
    isWhole := by simp [NumberParts.isWhole]
    worth := ⟨0, (Nat.mul_one _).symm, by
      rw [hpower]
      exact Int.add_zero _⟩
    whole := by simp
    power := hpower.symm ▸ he }

/-- Digits with an exponent. -/
theorem exists_spells_scientific (negative : Bool) (hds : Digits ds)
    (hpower : (ds.length + k - 1).natAbs ≤ maxExponent) :
    ∃ p : NumberParts,
      p.Spells negative (Layout.scientific ds (ds.length + k - 1)) ⟨digitsValue ds, k⟩ := by
  obtain ⟨e, he⟩ : ∃ e : Int, ds.length + k - 1 = e := ⟨_, rfl⟩
  rw [he] at hpower ⊢
  match ds with
  | []             => exact absurd rfl hds.ne_nil
  | [d]            =>
      have hd := hds.isDigit d List.mem_cons_self
      have h := spells_exponent negative hd none nofun hpower
      have hk : e - ([] : List Char).length = k := by
        rw [List.length_singleton] at he
        simp
        omega
      exact ⟨_, hk ▸ h⟩
  | d :: d' :: rest =>
      have hd := hds.isDigit d List.mem_cons_self
      have hrest : Digits (d' :: rest) :=
        ⟨List.cons_ne_nil _ _, fun x hx => hds.isDigit x (List.mem_cons_of_mem d hx)⟩
      have h := spells_exponent negative hd (some (d' :: rest)) (by rintro _ ⟨⟩; exact hrest) hpower
      have hk : e - (d' :: rest).length = k := by
        rw [List.length_cons] at he
        omega
      exact ⟨_, hk ▸ h⟩

/-- **Digits as they are written**, of a decimal that is no zero but `0`. Whatever the layout, the
number that is written is the decimal. -/
theorem exists_spells (negative : Bool) {d : Decimal} (hzero : d.digits = 0 → d.exponent = 0)
    (hlow : -324 ≤ d.exponent) (hhigh : d.exponent ≤ 308)
    (hdigits : (digits d.digits).length ≤ 633) :
    ∃ p : NumberParts, p.Spells negative
      (if Layout.json.isPositional ((digits d.digits).length + d.exponent - 1) then
        Layout.json.positional (digits d.digits) d.exponent
      else Layout.scientific (digits d.digits) ((digits d.digits).length + d.exponent - 1)) d := by
  have hds : Digits (digits d.digits) := ⟨digits_ne_nil _, fun _ => isDigit_of_mem_digits⟩
  have hvalue : (⟨digitsValue (digits d.digits), d.exponent⟩ : Decimal) = d := by
    rw [digitsValue_digits]
  split
  · next hpositional =>
      have hlength : (digits d.digits).length + d.exponent ≤ 16 := by
        simp only [Layout.isPositional, Layout.json, Option.all_some, Bool.and_eq_true,
          decide_eq_true_eq] at hpositional
        omega
      -- No digits but those of zero begin with a zero, and then there is no exponent.
      have hleading : (digits d.digits).head? = some '0' →
          digits d.digits = ['0'] ∧ d.exponent = 0 := by
        intro h
        refine ⟨Reader.digits_eq_of_head?_zero h, hzero ?_⟩
        by_contra hne
        exact Reader.head?_digits_ne_zero hne h
      obtain ⟨p, hp⟩ := exists_spells_positional negative hds hleading hlength
      rw [hvalue] at hp
      exact ⟨p, hp⟩
  · have hpos : 0 < (digits d.digits).length := List.length_pos_of_ne_nil (digits_ne_nil _)
    -- The exponent that is written differs by the number of digits, so it stays small.
    have hpower : ((digits d.digits).length + d.exponent - 1).natAbs ≤ maxExponent := by
      rw [maxExponent]
      omega
    obtain ⟨p, hp⟩ := exists_spells_scientific negative hds hpower
    rw [hvalue] at hp
    exact ⟨p, hp⟩

/-- The greatest product that is left room for has 309 digits. -/
theorem exists_roomForProducts_lt : ∃ k, 0 < k ∧ k ≤ 309 ∧ Binary64.roomForProducts < 10 ^ k :=
  ⟨309, by decide, Nat.le_refl _, by decide +kernel⟩

/-- A moderate decimal has no more than 309 digits before the point, and 324 behind it. So a reader
looks at all of its exponent. -/
theorem length_digits_le {d : Decimal} (h : d.Moderate) : (digits d.digits).length ≤ 633 := by
  obtain ⟨k, hpos, hk, hroom⟩ := exists_roomForProducts_lt
  have hlt : d.digits < 10 ^ (k + (-d.exponent).toNat) := by
    calc d.digits ≤ d.digits * 10 ^ d.exponent.toNat :=
          Nat.le_mul_of_pos_right _ (Nat.pow_pos (by decide))
      _ ≤ Binary64.roomForProducts * 10 ^ (-d.exponent).toNat := h.room
      _ < 10 ^ k * 10 ^ (-d.exponent).toNat :=
          Nat.mul_lt_mul_of_pos_right hroom (Nat.pow_pos (by decide))
      _ = 10 ^ (k + (-d.exponent).toNat) := (Nat.pow_add 10 k _).symm
  have hlength := (Nat.length_toDigits_le_iff (by decide) (by omega)).mpr hlt
  have := h.least
  rw [digits]
  omega

/-- Parts with a finite double are read as it, since they are no whole number. -/
theorem Spells.exists_number? {p : NumberParts} {negative : Bool} {cs : List Char} {d : Decimal}
    (h : p.Spells negative cs d) (hreal : ∃ r, p.real? = some r ∧ r.isFinite = true) :
    ∃ x hx, p.number? = some (.real x hx) := by
  obtain ⟨r, hr, hfinite⟩ := hreal
  have hinteger : p.integer? = none := by
    rw [integer?, h.isWhole]
    rfl
  refine ⟨r, hfinite, ?_⟩
  rw [number?, hinteger, hr]
  simp only [Option.bind_some, Number.ofBinary64?, hfinite, dite_true]

/-- The parts of the two greatest doubles, which differ in the last digit: there is no room for any
product, but theirs are finite. -/
theorem exists_real?_greatest {p : NumberParts} (hpower : p.power = 308)
    (hkept : p.kept = (17976931348623157, -16) ∨ p.kept = (17976931348623155, -16)) :
    ∃ r, p.real? = some r ∧ r.isFinite = true := by
  refine exists_real?_of_scaled (hpower ▸ by decide) ?_
  rcases hkept with hkept | hkept <;>
  · rw [hkept, hpower]
    exact exists_scaled_of_times (by decide) (by decide) (by decide +kernel)

/-- The two greatest doubles are written with an exponent. They are none of the moderate ones, so
what is written is computed. -/
theorem exists_spells_greatest (negative : Bool) {d : Decimal}
    (hd : d = ⟨17976931348623157, 292⟩ ∨ d = ⟨17976931348623155, 292⟩) :
    ∃ p : NumberParts, p.Spells negative (Layout.scientific (digits d.digits) 308) d ∧
      ∃ r, p.real? = some r ∧ r.isFinite = true := by
  have hone : '1'.isDigit = true := rfl
  have hpower : (308 : Int).natAbs ≤ maxExponent := by decide
  rcases hd with rfl | rfl
  · have hrest : Digits "7976931348623157".toList :=
      ⟨by decide, List.all_eq_true.mp (by decide +kernel)⟩
    have h := spells_exponent negative hone (some _) (by rintro _ ⟨⟩; exact hrest) hpower
    exact ⟨_, h, exists_real?_greatest rfl (.inl rfl)⟩
  · have hrest : Digits "7976931348623155".toList :=
      ⟨by decide, List.all_eq_true.mp (by decide +kernel)⟩
    have h := spells_exponent negative hone (some _) (by rintro _ ⟨⟩; exact hrest) hpower
    exact ⟨_, h, exists_real?_greatest rfl (.inr rfl)⟩

/-- **Every finite double** is written as a number that has a finite double. The two greatest are
looked at by themselves, as there is no room above them. -/
theorem exists_spells_unsigned (negative : Bool) {x : Binary64} (hx : x.isFinite = true) :
    ∃ p d, Spells p negative (Layout.json.unsigned x) d ∧
      ∃ r, p.real? = some r ∧ r.isFinite = true := by
  by_cases hunits : x.units = 0
  · rw [Layout.unsigned, if_pos hunits]
    obtain ⟨p, hp⟩ := exists_spells_positional negative digits_zero (k := 0) (fun _ => ⟨rfl, rfl⟩)
      (by decide)
    exact ⟨p, _, hp, exists_real? hp.whole_le hp.power hp.worth Decimal.moderate_zero.room⟩
  · have hpos : 0 < x.units := Nat.pos_of_ne_zero hunits
    rw [Layout.unsigned, if_neg hunits]
    rcases Nat.lt_or_ge x.magnitude (Binary64.infinite - 2) with hlow | htop
    · have hmoderate := Binary64.moderate_shortest hlow .even
      obtain ⟨p, hp⟩ := exists_spells negative
        (fun h => by rw [Binary64.shortest_eq_of_digits_eq_zero hpos h]) hmoderate.least
        hmoderate.greatest (length_digits_le hmoderate)
      exact ⟨p, _, hp, exists_real? hp.whole_le hp.power hp.worth hmoderate.room⟩
    · have hd := Binary64.shortest_of_greatest hx htop
      have he : ((digits (x.shortest .even).digits).length +
          (x.shortest .even).exponent - 1 : Int) = 308 := by
        rcases hd with hd | hd <;> rw [hd] <;> decide
      have hscientific : Layout.json.isPositional 308 = false := by decide
      obtain ⟨p, hp, hreal⟩ := exists_spells_greatest negative hd
      refine ⟨p, x.shortest .even, ?_, hreal⟩
      simp only [Layout.json] at he hscientific ⊢
      simp only [he, hscientific, Bool.false_eq_true, if_false]
      exact hp

end NumberParts

namespace Reader

/-- The text of a double is that of parts which spell its digits and its sign. A finite double is
written with digits, and not as a word. -/
theorem chars_real {x : Binary64} {hx : x.isFinite = true} {p : NumberParts} {d : Decimal}
    (hp : p.Spells x.isNegative (Layout.json.unsigned x) d) :
    (Number.real x hx).text.toList = p.chars := by
  have hnan : x.isNaN = false := by
    have hbiased : x.biased ≠ 2047 := Nat.ne_of_lt (decide_eq_true_iff.mp hx)
    rw [Binary64.isNaN, beq_false_of_ne hbiased, Bool.false_and]
  rw [Number.text, Layout.toList_text, Layout.chars, hp.chars, hnan, hx]
  cases x.isNegative <;> rfl

end Reader

/-! ### Any number -/

/-- `reread n` is the number that is read from the text of `n`. -/
def Number.reread (n : Number) : Number :=
  match Reader.number.run n.text with
  | .ok m    => m
  | .error _ => n

namespace Reader

/-- What is taken of the text of a number is what is read from it again. -/
theorem reread_eq {n m : Number} (h : Takes number n.text.toList m []) : n.reread = m := by
  obtain ⟨p, hp⟩ := h .start
  rw [List.append_nil] at hp
  rw [Number.reread, run_eq_ok_iff.mpr ⟨_, _, hp, rfl⟩]

/-- **The text of a number** is made of parts, and these parts are the number that is read from the
text again. A whole number is made of its digits. -/
theorem exists_parts (n : Number) : ∃ p : NumberParts, p.Spelled ∧ n.text.toList = p.chars ∧
    p.number? = some n.reread ∧ ∀ i, n = .whole i → p = wholeParts i := by
  have hend : Follows [] := nofun
  cases n with
  | whole i =>
      have htext : (Number.whole i).text.toList = (wholeParts i).chars := by
        rw [Number.text, chars_wholeParts]
      have htakes := takes_number (spelled_wholeParts i) (number?_wholeParts i) hend
      rw [← htext] at htakes
      refine ⟨wholeParts i, spelled_wholeParts i, htext, ?_, ?_⟩
      · rw [reread_eq htakes, number?_wholeParts]
      · rintro _ ⟨⟩
        rfl
  | real x hx =>
      obtain ⟨p, d, hp, hreal⟩ := NumberParts.exists_spells_unsigned x.isNegative hx
      obtain ⟨y, hy, hnumber⟩ := hp.exists_number? hreal
      have htext : (Number.real x hx).text.toList = p.chars := chars_real hp
      have htakes := takes_number hp.spelled hnumber hend
      rw [← htext] at htakes
      refine ⟨p, hp.spelled, htext, ?_, by simp⟩
      rw [reread_eq htakes, hnumber]

/-- **Whole numbers** are read back as they were, unlike doubles. -/
@[simp] theorem reread_whole (i : Integer) : (Number.whole i).reread = .whole i := by
  obtain ⟨p, -, -, hreread, hwhole⟩ := exists_parts (.whole i)
  rw [hwhole i rfl, number?_wholeParts] at hreread
  exact (Option.some.inj hreread).symm

end Reader

end FacetQuery.Json
