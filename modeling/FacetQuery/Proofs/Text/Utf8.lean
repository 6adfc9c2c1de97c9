import FacetQuery.Text.Bytes

/-!
# Text — Reading back UTF-8

The bytes of a text read as this text: no byte of a well-formed sequence is taken for ill-formed.

* `lead?_two`, `lead?_three`, `lead?_four`: what the first byte of a longer character asks for.
* `decodeFrom_utf8EncodeChar`: the bytes of one character.
* `decodeLossy_utf8`: the bytes of a whole text.
-/

namespace FacetQuery.Text

/-! ### One byte -/

theorem toNat_byte {n : Nat} (h : n < 256) : (UInt8.ofNat n).toNat = n :=
  UInt8.toNat_ofNat_of_lt' h

/-- The first byte says how many bytes follow and in which range the next one lies: with five bits
of the character, one follows. -/
theorem lead?_two {k : Nat} (h : 2 ≤ k ∧ k < 32) : lead? (k + 0xC0) = some ⟨1, k, 0x80, 0xBF⟩ := by
  have range : 0xC2 ≤ k + 0xC0 ∧ k + 0xC0 ≤ 0xDF := by omega
  rw [lead?, if_pos range, Nat.add_sub_cancel]

/-- With four bits, two follow. The two exceptions shut out what has a shorter form, and surrogates.
-/
theorem lead?_three : ∀ k < 16, lead? (k + 0xE0)
    = some ⟨2, k, if k = 0 then 0xA0 else 0x80, if k = 0xD then 0x9F else 0xBF⟩ := by
  decide

/-- With three bits, three follow. The exceptions shut out what has a shorter form, and what is
beyond the last character. -/
theorem lead?_four : ∀ k < 5, lead? (k + 0xF0)
    = some ⟨3, k, if k = 0 then 0x90 else 0x80, if k = 4 then 0x8F else 0xBF⟩ := by
  decide

theorem decodeFrom_ascii {b : Nat} (h : b < 0x80) (bytes : List UInt8) :
    decodeFrom none (UInt8.ofNat b :: bytes) = Char.ofNat b :: decodeFrom none bytes := by
  rw [decodeFrom, toNat_byte (by omega), advance, begin, if_pos h]
  rfl

theorem decodeFrom_lead {b : Nat} {p : Pending} (hb : 0x80 ≤ b ∧ b < 256) (h : lead? b = some p)
    (bytes : List UInt8) :
    decodeFrom none (UInt8.ofNat b :: bytes) = decodeFrom (some p) bytes := by
  rw [decodeFrom, toNat_byte hb.2, advance, begin, if_neg (by omega), h]
  rfl

/-- A byte that is not the last one of its character. -/
theorem decodeFrom_more {needed bits least greatest b : Nat} (h : least ≤ b ∧ b ≤ greatest)
    (hb : b < 256) (hn : 1 < needed) (bytes : List UInt8) :
    decodeFrom (some ⟨needed, bits, least, greatest⟩) (UInt8.ofNat b :: bytes)
      = decodeFrom (some ⟨needed - 1, bits * 64 + (b - 0x80), 0x80, 0xBF⟩) bytes := by
  rw [decodeFrom, toNat_byte hb, advance, if_pos h, if_neg (by exact Nat.not_le.mpr hn)]
  rfl

theorem decodeFrom_last {bits least greatest b : Nat} (h : least ≤ b ∧ b ≤ greatest)
    (hb : b < 256) (bytes : List UInt8) :
    decodeFrom (some ⟨1, bits, least, greatest⟩) (UInt8.ofNat b :: bytes)
      = Char.ofNat (bits * 64 + (b - 0x80)) :: decodeFrom none bytes := by
  rw [decodeFrom, toNat_byte hb, advance, if_pos h, if_pos (Nat.le_refl 1)]
  rfl

/-! ### One character -/

/-- The bytes of a character read as this character, whatever comes behind them. Four cases, by how
many bytes there are. -/
theorem decodeFrom_utf8EncodeChar (c : Char) (bytes : List UInt8) :
    decodeFrom none (String.utf8EncodeChar c ++ bytes) = c :: decodeFrom none bytes := by
  have valid : c.toNat < 0xD800 ∨ 0xDFFF < c.toNat ∧ c.toNat < 0x110000 := c.valid
  have same : Char.ofNat c.toNat = c := Char.ofNat_toNat c
  generalize hv : c.toNat = v at valid same
  have hval : c.val.toNat = v := hv
  rw [String.utf8EncodeChar]
  simp only [hval]
  split
  · next h1 =>
      rw [List.singleton_append, decodeFrom_ascii (by omega), same]
  · split
    · next h1 h2 =>
        have k : v / 64 % 32 = v / 64 := by omega
        have bits : v / 64 * 64 + (v % 64 + 0x80 - 0x80) = v := by omega
        simp only [k, List.cons_append, List.nil_append]
        rw [decodeFrom_lead (by omega) (lead?_two (by omega)),
          decodeFrom_last (by omega) (by omega), bits, same]
    · split
      · next h1 h2 h3 =>
          have k : v / 4096 % 16 = v / 4096 := by omega
          have bits : (v / 4096 * 64 + (v / 64 % 64 + 0x80 - 0x80)) * 64
              + (v % 64 + 0x80 - 0x80) = v := by omega
          -- Neither overlong nor a surrogate: the second byte is in the narrowed range.
          have second : (if v / 4096 = 0 then 0xA0 else 0x80) ≤ v / 64 % 64 + 0x80
              ∧ v / 64 % 64 + 0x80 ≤ (if v / 4096 = 0xD then 0x9F else 0xBF) := by
            split <;> split <;> omega
          simp only [k, List.cons_append, List.nil_append]
          rw [decodeFrom_lead (by omega) (lead?_three _ (by omega)),
            decodeFrom_more second (by omega) (by omega),
            decodeFrom_last (by omega) (by omega), bits, same]
      · next h1 h2 h3 =>
          have k : v / 262144 % 8 = v / 262144 := by omega
          have bits : ((v / 262144 * 64 + (v / 4096 % 64 + 0x80 - 0x80)) * 64
              + (v / 64 % 64 + 0x80 - 0x80)) * 64 + (v % 64 + 0x80 - 0x80) = v := by omega
          -- Neither overlong nor beyond the last code point.
          have second : (if v / 262144 = 0 then 0x90 else 0x80) ≤ v / 4096 % 64 + 0x80
              ∧ v / 4096 % 64 + 0x80 ≤ (if v / 262144 = 4 then 0x8F else 0xBF) := by
            split <;> split <;> omega
          simp only [k, List.cons_append, List.nil_append]
          rw [decodeFrom_lead (by omega) (lead?_four _ (by omega)),
            decodeFrom_more second (by omega) (by omega),
            decodeFrom_more (by omega) (by omega) (by omega),
            decodeFrom_last (by omega) (by omega), bits, same]

/-! ### A whole text -/

/-- **The bytes of a text** read as this text, with no replacement character in it that was not
there. Induction on the characters. -/
theorem decodeLossy_utf8 (cs : List Char) : decodeLossy (utf8 cs) = cs := by
  induction cs with
  | nil => rfl
  | cons c cs ih =>
      rw [decodeLossy] at ih ⊢
      rw [utf8, List.flatMap_cons, decodeFrom_utf8EncodeChar, ← utf8, ih]

end FacetQuery.Text
