/-!
# Text — Bytes

Texts as bytes, and bytes in texts.

- `hexDigit?`, `hexDigit`: hexadecimal digits.
- `decodeLossy`: bytes read as UTF-8 where ill-formed ones are allowed. Every longest piece that
  could have begun a character, and every byte that could not, reads as one replacement character.
- `percentDecode`: a component of a query string. `+` stands for a space and `%XX` for the byte `XX`;
  a `%` without two hexadecimal digits behind it stands for itself. The bytes read as UTF-8.
-/

namespace FacetQuery.Text

/-! ### Hexadecimal digits -/

/-- `hexDigit? c` is the value of a hexadecimal digit of either case. -/
def hexDigit? (c : Char) : Option Nat :=
  if '0' ≤ c ∧ c ≤ '9' then some (c.toNat - '0'.toNat)
  else if 'a' ≤ c ∧ c ≤ 'f' then some (c.toNat - 'a'.toNat + 10)
  else if 'A' ≤ c ∧ c ≤ 'F' then some (c.toNat - 'A'.toNat + 10)
  else none

/-- `hexDigit n` is the lower-case digit for `n` below sixteen. -/
def hexDigit (n : Nat) : Char :=
  Nat.digitChar n

theorem hexDigit?_hexDigit : ∀ n : Fin 16, hexDigit? (hexDigit n) = some n.val := by
  decide

/-! ### UTF-8 -/

/-- The bytes of a character begun and not finished. -/
structure Pending where
  /-- How many bytes are still to come. -/
  needed : Nat
  /-- The bits of the character read so far. -/
  bits : Nat
  /-- The least byte that may come next. -/
  least : Nat
  /-- The greatest byte that may come next. -/
  greatest : Nat
deriving DecidableEq, Repr

/-- `lead? b` is what the first byte `b` of a longer character asks for. The ranges of the second
byte rule out overlong forms, surrogates, and everything beyond the last code point. -/
def lead? (b : Nat) : Option Pending :=
  if 0xC2 ≤ b ∧ b ≤ 0xDF then some ⟨1, b - 0xC0, 0x80, 0xBF⟩
  else if b = 0xE0 then some ⟨2, 0, 0xA0, 0xBF⟩
  else if b = 0xED then some ⟨2, 0xD, 0x80, 0x9F⟩
  else if 0xE1 ≤ b ∧ b ≤ 0xEF then some ⟨2, b - 0xE0, 0x80, 0xBF⟩
  else if b = 0xF0 then some ⟨3, 0, 0x90, 0xBF⟩
  else if 0xF1 ≤ b ∧ b ≤ 0xF3 then some ⟨3, b - 0xF0, 0x80, 0xBF⟩
  else if b = 0xF4 then some ⟨3, 4, 0x80, 0x8F⟩
  else none

/-- The character that stands for ill-formed bytes. -/
def replacement : Char := '\uFFFD'

/-- `begin b` is what a byte means between characters: characters to write, and a character begun. -/
def begin (b : Nat) : List Char × Option Pending :=
  if b < 0x80 then ([Char.ofNat b], none)
  else match lead? b with
    | some p => ([], some p)
    | none => ([replacement], none)

/-- `advance p b` is what a byte means after `p`: it goes on with the character, finishes it, or
leaves it broken off and begins anew. -/
def advance (p : Option Pending) (b : Nat) : List Char × Option Pending :=
  match p with
  | none => begin b
  | some p =>
      if p.least ≤ b ∧ b ≤ p.greatest then
        let bits := p.bits * 64 + (b - 0x80)
        if p.needed ≤ 1 then ([Char.ofNat bits], none)
        else ([], some ⟨p.needed - 1, bits, 0x80, 0xBF⟩)
      else
        let (cs, next) := begin b
        (replacement :: cs, next)

/-- `decodeFrom p bytes` reads on after `p`. -/
def decodeFrom : Option Pending → List UInt8 → List Char
  | none, [] => []
  | some _, [] => [replacement]
  | p, b :: bytes =>
      let (cs, next) := advance p b.toNat
      cs ++ decodeFrom next bytes

/-- `decodeLossy bytes` reads bytes as UTF-8. -/
def decodeLossy (bytes : List UInt8) : List Char :=
  decodeFrom none bytes

/-- `utf8 cs` are the bytes of `cs`. -/
def utf8 (cs : List Char) : List UInt8 :=
  cs.flatMap String.utf8EncodeChar

/-! ### Percent encoding -/

/-- `percentBytes cs` are the bytes that `cs` stands for. -/
def percentBytes : List Char → List UInt8
  | '%' :: a :: b :: rest =>
      match hexDigit? a, hexDigit? b with
      | some high, some low => UInt8.ofNat (16 * high + low) :: percentBytes rest
      | _, _ => 0x25 :: percentBytes (a :: b :: rest)
  | c :: rest => String.utf8EncodeChar c ++ percentBytes rest
  | [] => []

/-- `plusToSpace cs` reads every `+` as a space. -/
def plusToSpace (cs : List Char) : List Char :=
  cs.map fun c => if c = '+' then ' ' else c

/-- `percentDecode cs` is the text that a component stands for. -/
def percentDecode (cs : List Char) : List Char :=
  decodeLossy (percentBytes (plusToSpace cs))

end FacetQuery.Text
