import FacetQuery.Proofs.Text.Utf8
import FacetQuery.Text.Bytes

/-!
# Text — Percent encoding and back

A text whose every byte is written `%XX` reads back, and has no character with a meaning of its own
in a query string.

* `IsHexDigits digit`: `digit` writes the numbers below sixteen, in either case.
* `percentEncode`: the encoded text.
* `Encodes digit cs text`: some characters of `cs` are encoded in `text`, and the others stand there
  as they are.
* `Encodes.percentDecode_eq`: such a text stands for the one that was encoded.
-/

namespace FacetQuery.Text

/-- `IsHexDigits digit`: `digit n` is a hexadecimal digit of value `n`, for `n` below sixteen. -/
def IsHexDigits (digit : Nat → Char) : Prop := ∀ n < 16, hexDigit? (digit n) = some n

theorem isHexDigits_hexDigit : IsHexDigits hexDigit := fun n h => hexDigit?_hexDigit ⟨n, h⟩

/-- `percentByte digit b` is the byte `b` behind a percent sign. -/
def percentByte (digit : Nat → Char) (b : UInt8) : List Char :=
  ['%', digit (b.toNat / 16), digit (b.toNat % 16)]

/-- `percentEncode digit cs` writes every byte of `cs` behind a percent sign. -/
def percentEncode (digit : Nat → Char) (cs : List Char) : List Char :=
  (utf8 cs).flatMap (percentByte digit)

variable {digit : Nat → Char}

/-! ### The characters of an encoded text -/

/-- Every character is a percent sign or a hexadecimal digit. -/
theorem mem_percentEncode (hd : IsHexDigits digit) {cs : List Char} {c : Char}
    (h : c ∈ percentEncode digit cs) : c = '%' ∨ (hexDigit? c).isSome := by
  obtain ⟨b, -, hc⟩ := List.mem_flatMap.mp h
  have hb : b.toNat < 256 := b.toNat_lt
  simp only [percentByte, List.mem_cons, List.not_mem_nil, or_false] at hc
  rcases hc with rfl | rfl | rfl
  · exact .inl rfl
  · exact .inr (by rw [hd _ (by omega)]; rfl)
  · exact .inr (by rw [hd _ (by omega)]; rfl)

/-- A character that is neither does not occur. -/
theorem notMem_percentEncode (hd : IsHexDigits digit) (cs : List Char) {c : Char} (hc : c ≠ '%')
    (hx : hexDigit? c = none) : c ∉ percentEncode digit cs := by
  intro h
  rcases mem_percentEncode hd h with rfl | hs
  · exact hc rfl
  · rw [hx] at hs
    cases hs

theorem percentEncode_cons (c : Char) (cs : List Char) :
    percentEncode digit (c :: cs)
      = (String.utf8EncodeChar c).flatMap (percentByte digit) ++ percentEncode digit cs := by
  rw [percentEncode, utf8, List.flatMap_cons, List.flatMap_append]
  rfl

/-- An encoded text begins with a percent sign, unless it is empty. -/
theorem percentEncode_of_ne_nil (digit : Nat → Char) {cs : List Char} (h : cs ≠ []) :
    ∃ rest, percentEncode digit cs = '%' :: rest := by
  obtain ⟨c, cs, rfl⟩ := List.exists_cons_of_ne_nil h
  obtain ⟨b, bs, hb⟩ := List.exists_cons_of_ne_nil (String.utf8EncodeChar_ne_nil (c := c))
  rw [percentEncode_cons, hb, List.flatMap_cons]
  exact ⟨_, rfl⟩

/-! ### Texts encoded in part -/

/-- `Encodes digit cs text` says that `text` writes each character of `cs` either as it is, which a
percent sign and a plus cannot be, or with every byte behind a percent sign. -/
inductive Encodes (digit : Nat → Char) : List Char → List Char → Prop where
  | nil : Encodes digit [] []
  | plain {c : Char} {cs text : List Char} : c ≠ '%' → c ≠ '+' → Encodes digit cs text →
      Encodes digit (c :: cs) (c :: text)
  | escaped (c : Char) {cs text : List Char} : Encodes digit cs text →
      Encodes digit (c :: cs) (percentEncode digit [c] ++ text)

theorem encodes_self {cs : List Char} (hpercent : '%' ∉ cs) (hplus : '+' ∉ cs) :
    Encodes digit cs cs := by
  induction cs with
  | nil => exact .nil
  | cons c cs ih =>
      rw [List.mem_cons, not_or] at hpercent hplus
      exact .plain (Ne.symm hpercent.1) (Ne.symm hplus.1) (ih hpercent.2 hplus.2)

/-- Every text is encoded by the bytes of it, all behind percent signs. -/
theorem encodes_percentEncode (cs : List Char) : Encodes digit cs (percentEncode digit cs) := by
  induction cs with
  | nil => exact .nil
  | cons c cs ih =>
      have hcons : percentEncode digit (c :: cs)
          = percentEncode digit [c] ++ percentEncode digit cs := by
        rw [percentEncode_cons, percentEncode_cons, List.append_assoc]
        rfl
      rw [hcons]
      exact .escaped c ih

/-- A plus in a query string is a space, so an encoded text has none. -/
theorem Encodes.plus_notMem (hd : IsHexDigits digit) {cs text : List Char}
    (h : Encodes digit cs text) : '+' ∉ text := by
  induction h with
  | nil => exact List.not_mem_nil
  | plain _ hplus _ ih => exact List.not_mem_cons_of_ne_of_not_mem (Ne.symm hplus) ih
  | escaped c _ ih =>
      intro hmem
      exact (List.mem_append.mp hmem).elim
        (notMem_percentEncode hd [c] (by decide) (by decide)) ih

/-! ### Decoding -/

theorem plusToSpace_of_notMem {cs : List Char} (h : '+' ∉ cs) : plusToSpace cs = cs := by
  refine (List.map_congr_left fun c hc => if_neg ?_).trans (List.map_id cs)
  rintro rfl
  exact h hc

/-- A character other than the percent sign stands for its own bytes. -/
theorem percentBytes_cons {c : Char} (hc : c ≠ '%') (cs : List Char) :
    percentBytes (c :: cs) = String.utf8EncodeChar c ++ percentBytes cs := by
  rw [percentBytes]
  intro a b rest h
  exact absurd h hc

/-- Encoded bytes read as these bytes, whatever comes behind them. Two digits are taken behind each
sign, in either case of the letters. -/
theorem percentBytes_flatMap_append (hd : IsHexDigits digit) (bytes : List UInt8)
    (rest : List Char) :
    percentBytes (bytes.flatMap (percentByte digit) ++ rest) = bytes ++ percentBytes rest := by
  induction bytes with
  | nil => rfl
  | cons b bytes ih =>
      have hb : b.toNat < 256 := b.toNat_lt
      have byte : UInt8.ofNat (16 * (b.toNat / 16) + b.toNat % 16) = b := by
        rw [Nat.div_add_mod, UInt8.ofNat_toNat]
      rw [List.flatMap_cons, percentByte, List.append_assoc, List.cons_append, List.cons_append,
        List.cons_append, List.nil_append, percentBytes, hd _ (by omega), hd _ (by omega)]
      simp only [byte, ih, List.cons_append]

/-- The bytes of an encoded text are those of the text itself. Induction on the encoding, one
character at a time. -/
theorem Encodes.percentBytes_eq (hd : IsHexDigits digit) {cs text : List Char}
    (h : Encodes digit cs text) : percentBytes text = utf8 cs := by
  induction h with
  | nil => rw [percentBytes]; rfl
  | plain hpercent _ _ ih => rw [percentBytes_cons hpercent, ih]; rfl
  | escaped c _ ih =>
      rw [percentEncode, percentBytes_flatMap_append hd, ih, utf8, utf8, ← List.flatMap_append]
      rfl

/-- **A text that is encoded**, as a whole or in part, stands for the text that was encoded: its
bytes are those of the text, and UTF-8 reads back. -/
theorem Encodes.percentDecode_eq (hd : IsHexDigits digit) {cs text : List Char}
    (h : Encodes digit cs text) : percentDecode text = cs := by
  rw [percentDecode, plusToSpace_of_notMem (h.plus_notMem hd), h.percentBytes_eq hd,
    decodeLossy_utf8]

/-- **A text that is encoded in full** is decoded to itself. -/
theorem percentDecode_percentEncode (hd : IsHexDigits digit) (cs : List Char) :
    percentDecode (percentEncode digit cs) = cs :=
  (encodes_percentEncode cs).percentDecode_eq hd

end FacetQuery.Text
