import FacetQuery.Proofs.Json.Reader.Numerals

/-!
# Json — The grammar of texts

What a JSON text is, apart from any reader of it: the texts of a value, with blanks between its
tokens and with every spelling of its numbers and strings.

* `Tree`: a value as it is written, of any depth, with its members in their order.
* `Tree.Distinct`, `Tree.Fits`: no key comes twice, and nothing is nested too deep.
* `SpellsString`, `Row`, `Spells`: how strings, lists and values are spelled; numbers are spelled by
  `SpellsNumber`.
* `Writes s v`: the text `s` is `v`, with blanks around it.
* `Spells.first`: what a text begins with tells the kind of its value.
-/

namespace FacetQuery.Json

open Reader

/-- A value as it is written. Numbers come with all their digits, and an object may name a member
twice. A string is missing if it is no row of characters, for half a surrogate pair in it. -/
inductive Tree where
  | null
  | bool (b : Bool)
  | number (p : NumberParts)
  | string (s : Option String)
  | array (items : List Tree)
  | object (members : List (Option String × Tree))

namespace Tree

/-- `Distinct v`: no object in `v` names a member twice. Keys with half a surrogate pair in them are
not kept apart, and so they are not counted. -/
inductive Distinct : Tree → Prop where
  | null : Distinct .null
  | bool (b : Bool) : Distinct (.bool b)
  | number (p : NumberParts) : Distinct (.number p)
  | string (s : Option String) : Distinct (.string s)
  | array {items : List Tree} : (∀ v ∈ items, Distinct v) → Distinct (.array items)
  | object {members : List (Option String × Tree)} : (members.filterMap Prod.fst).Nodup →
      (∀ m ∈ members, Distinct m.2) → Distinct (.object members)

/-- `Fits levels v`: no more than `levels` lists and objects stand inside each other in `v`. -/
inductive Fits : Nat → Tree → Prop where
  | null (levels : Nat) : Fits levels .null
  | bool (levels : Nat) (b : Bool) : Fits levels (.bool b)
  | number (levels : Nat) (p : NumberParts) : Fits levels (.number p)
  | string (levels : Nat) (s : Option String) : Fits levels (.string s)
  | array {inner : Nat} {items : List Tree} : (∀ v ∈ items, Fits inner v) →
      Fits (inner + 1) (.array items)
  | object {inner : Nat} {members : List (Option String × Tree)} : (∀ m ∈ members, Fits inner m.2) →
      Fits (inner + 1) (.object members)

end Tree

/-! ### Strings -/

/-- What a string is made of: characters, and halves of surrogate pairs. -/
inductive StringUnit where
  | char (c : Char)
  | half (n : Nat)

namespace StringUnit

/-- `ofCode n` is what `\u` and four digits stand for. -/
def ofCode (n : Nat) : StringUnit :=
  if isLeading n || isTrailing n then .half n else .char (Char.ofNat n)

/-- `decode us` are the characters that `us` make up, if all halves are in pairs. -/
def decode : List StringUnit → Option (List Char)
  | []                      => some []
  | .char c :: us           => (decode us).map (c :: ·)
  | .half a :: .half b :: us =>
      if isLeading a && isTrailing b then (decode us).map (Char.ofNat (pairValue a b) :: ·)
      else none
  | .half _ :: _            => none

/-- Characters make up themselves. -/
theorem decode_map_char (cs : List Char) : decode (cs.map .char) = some cs := by
  induction cs with
  | nil => rfl
  | cons c cs ih => rw [List.map_cons, decode, ih, Option.map_some]

end StringUnit

/-- `SpellsUnit cs u`: the characters `cs` are `u`, or an escape for it. -/
inductive SpellsUnit : List Char → StringUnit → Prop where
  | plain {c : Char} : c ≠ '"' → c ≠ '\\' → ¬ c.toNat < 0x20 → SpellsUnit [c] (.char c)
  | simple {x y : Char} : simpleEscape? x = some y → SpellsUnit ['\\', x] (.char y)
  | code {ds : List Char} {n : Nat} : ds.length = 4 → hexValue? ds = some n →
      SpellsUnit ('\\' :: 'u' :: ds) (.ofCode n)

/-- `SpellsUnits cs us`: the characters `cs` are `us` and a closing quote. -/
inductive SpellsUnits : List Char → List StringUnit → Prop where
  | close : SpellsUnits ['"'] []
  | cons {t ts : List Char} {u : StringUnit} {us : List StringUnit} :
      SpellsUnit t u → SpellsUnits ts us → SpellsUnits (t ++ ts) (u :: us)

/-- Every unit is spelled by something. -/
theorem SpellsUnit.length_pos {t : List Char} {u : StringUnit} (h : SpellsUnit t u) :
    0 < t.length := by
  cases h <;> simp

/-- A string is longer than its units are many, by its last quote. -/
theorem SpellsUnits.length_lt {t : List Char} {us : List StringUnit} (h : SpellsUnits t us) :
    us.length < t.length := by
  induction h with
  | close => decide
  | cons hu _ ih =>
      have := SpellsUnit.length_pos hu
      rw [List.length_append, List.length_cons]
      omega

/-- `SpellsString cs s`: behind an opening quote, the characters `cs` are the string `s`. -/
def SpellsString (cs : List Char) (s : Option String) : Prop :=
  ∃ us, SpellsUnits cs us ∧ (StringUnit.decode us).map String.ofList = s

/-- A string of which nothing must be escaped is spelled by its own characters. -/
theorem SpellsString.plain {s : String}
    (h : ∀ c ∈ s.toList, c ≠ '"' ∧ c ≠ '\\' ∧ ¬ c.toNat < 0x20) :
    SpellsString (s.toList ++ ['"']) (some s) := by
  obtain ⟨cs, rfl⟩ : ∃ cs, s = String.ofList cs := ⟨s.toList, String.ofList_toList.symm⟩
  rw [String.toList_ofList] at h ⊢
  refine ⟨cs.map .char, ?_, ?_⟩
  · induction cs with
    | nil => exact .close
    | cons c cs ih =>
        obtain ⟨⟨hquote, hback, hcontrol⟩, h⟩ := List.forall_mem_cons.mp h
        exact .cons (t := [c]) (.plain hquote hback hcontrol) (ih h)
  · rw [StringUnit.decode_map_char, Option.map_some]

/-! ### Lists and objects -/

/-- `Row close first cs texts`: the characters `cs` are the texts, with commas between them and
blanks around each, up to the bracket `close`. A comma stands before each text but the first. -/
inductive Row (close : Char) : Bool → List Char → List (List Char) → Prop where
  | nil {first : Bool} {bs : List Char} : Blank bs → Row close first (bs ++ [close]) []
  | first {bs t ts : List Char} {texts : List (List Char)} : Blank bs →
      Row close false ts texts → Row close true (bs ++ (t ++ ts)) (t :: texts)
  | next {bs bs' t ts : List Char} {texts : List (List Char)} : Blank bs → Blank bs' →
      Row close false ts texts → Row close false (bs ++ ',' :: (bs' ++ (t ++ ts))) (t :: texts)

/-- A member of an object as it is written. -/
structure Member where
  /-- The characters of the key, behind its opening quote. -/
  key : List Char
  /-- The blanks before the colon. -/
  before : List Char
  /-- The blanks behind the colon. -/
  after : List Char
  /-- The characters of the value. -/
  text : List Char
  name : Option String
  tree : Tree

namespace Member

/-- `chars m` are the characters of `m`. -/
def chars (m : Member) : List Char :=
  '"' :: (m.key ++ (m.before ++ ':' :: (m.after ++ m.text)))

/-- A member, taken apart into what each reader takes of it. -/
theorem chars_append (m : Member) (cs : List Char) :
    m.chars ++ cs = '"' :: (m.key ++ (m.before ++ ':' :: (m.after ++ (m.text ++ cs)))) := by
  simp [chars]

/-- The value of a member is shorter than the member. -/
theorem length_text_lt (m : Member) : m.text.length < m.chars.length := by
  simp only [chars, List.length_append, List.length_cons]
  omega

/-- `entry m` is what `m` says. -/
def entry (m : Member) : Option String × Tree :=
  (m.name, m.tree)

/-- `Keyed m`: the name of `m` is spelled by its key, and there are blanks around the colon. -/
structure Keyed (m : Member) : Prop where
  key : SpellsString m.key m.name
  before : Blank m.before
  after : Blank m.after

/-- `compact name t v` is a member without blanks, and with nothing escaped in its name. -/
def compact (name : String) (t : List Char) (v : Tree) : Member :=
  ⟨name.toList ++ ['"'], [], [], t, some name, v⟩

/-- A name in which nothing must be escaped spells itself. -/
theorem keyed_compact {name : String}
    (h : ∀ c ∈ name.toList, c ≠ '"' ∧ c ≠ '\\' ∧ ¬ c.toNat < 0x20) (t : List Char) (v : Tree) :
    (compact name t v).Keyed :=
  ⟨.plain h, nofun, nofun⟩

end Member

/-! ### Values -/

/-- `Spells cs v`: the characters `cs` are the value `v`. -/
inductive Spells : List Char → Tree → Prop where
  | null : Spells ['n', 'u', 'l', 'l'] .null
  | yes : Spells ['t', 'r', 'u', 'e'] (.bool true)
  | no : Spells ['f', 'a', 'l', 's', 'e'] (.bool false)
  | number {t : List Char} {p : NumberParts} : SpellsNumber t p → Spells t (.number p)
  | string {t : List Char} {s : Option String} : SpellsString t s → Spells ('"' :: t) (.string s)
  | array {t : List Char} {items : List (List Char × Tree)} : Row ']' true t (items.map Prod.fst) →
      (∀ i ∈ items, Spells i.1 i.2) → Spells ('[' :: t) (.array (items.map Prod.snd))
  | object {t : List Char} {ms : List Member} : Row '\x7d' true t (ms.map Member.chars) →
      (∀ m ∈ ms, m.Keyed) → (∀ m ∈ ms, Spells m.text m.tree) →
      Spells ('\x7b' :: t) (.object (ms.map Member.entry))

/-- An object with one member, without blanks and with nothing escaped in its name. -/
theorem Spells.single {name : String} {t : List Char} {v : Tree}
    (hname : ∀ c ∈ name.toList, c ≠ '"' ∧ c ≠ '\\' ∧ ¬ c.toNat < 0x20) (h : Spells t v) :
    Spells ('\x7b' :: ((Member.compact name t v).chars ++ ['\x7d'])) (.object [(some name, v)]) := by
  have hrow : Row '\x7d' true ((Member.compact name t v).chars ++ ['\x7d'])
      [(Member.compact name t v).chars] := by
    have hend : Row '\x7d' false ([] ++ ['\x7d']) [] := .nil blank_nil
    simpa only [List.nil_append] using
      Row.first (t := (Member.compact name t v).chars) blank_nil hend
  exact @Spells.object _ [.compact name t v] hrow
    (List.forall_mem_singleton.mpr (Member.keyed_compact hname t v))
    (List.forall_mem_singleton.mpr h)

/-- `Writes s v`: the text `s` is the value `v`, with blanks around it. -/
def Writes (s : String) (v : Tree) : Prop :=
  ∃ before t after, s.toList = before ++ (t ++ after) ∧ Blank before ∧ Blank after ∧ Spells t v

/-- A text may have no blanks around its value. -/
theorem Writes.of_spells {s : String} {t : List Char} {v : Tree} (h : Spells t v)
    (hs : s.toList = t) : Writes s v :=
  ⟨[], t, [], by rw [hs, List.append_nil, List.nil_append], nofun, nofun, h⟩

/-! ### What texts begin with -/

/-- `Begins c v`: a text of `v` may begin with `c`. -/
inductive Begins : Char → Tree → Prop where
  | null : Begins 'n' .null
  | yes : Begins 't' (.bool true)
  | no : Begins 'f' (.bool false)
  | number {c : Char} {p : NumberParts} : isNumberStart c = true → Begins c (.number p)
  | string {s : Option String} : Begins '"' (.string s)
  | array {items : List Tree} : Begins '[' (.array items)
  | object {members : List (Option String × Tree)} : Begins '\x7b' (.object members)

/-- A number begins with a minus sign or a digit. -/
theorem SpellsNumber.first {t : List Char} {p : NumberParts} (h : SpellsNumber t p) :
    ∃ c cs, t = c :: cs ∧ isNumberStart c = true := by
  obtain ⟨hp, -⟩ := h
  cases p.negative with
  | true => exact ⟨'-', _, rfl, rfl⟩
  | false =>
      obtain ⟨d, ds, hds⟩ := List.exists_cons_of_ne_nil hp.whole.ne_nil
      have hd : d.isDigit = true := hp.whole.isDigit d (hds ▸ List.mem_cons_self)
      rw [hds]
      exact ⟨d, _, rfl, by rw [isNumberStart, hd, Bool.or_true]⟩

/-- **What a text begins with** tells the kind of its value: a quote, a bracket, a brace, a letter,
or what a number begins with. -/
theorem Spells.first {t : List Char} {v : Tree} (h : Spells t v) :
    ∃ c cs, t = c :: cs ∧ Begins c v := by
  cases h with
  | null => exact ⟨_, _, rfl, .null⟩
  | yes => exact ⟨_, _, rfl, .yes⟩
  | no => exact ⟨_, _, rfl, .no⟩
  | number h =>
      obtain ⟨c, cs, hcs, hc⟩ := h.first
      exact ⟨c, cs, hcs, .number hc⟩
  | string => exact ⟨_, _, rfl, .string⟩
  | array => exact ⟨_, _, rfl, .array⟩
  | object => exact ⟨_, _, rfl, .object⟩

/-- A character with which no number begins is not the first one of a number. -/
theorem ne_of_isNumberStart {c x : Char} (hc : isNumberStart c = true)
    (hx : isNumberStart x = false) : c ≠ x := by
  rintro rfl
  cases hc.symm.trans hx

/-- A value begins with a token, so blanks in front of it are no part of it, and how they are split
off does not matter. -/
theorem Begins.not_blank {c : Char} {v : Tree} (h : Begins c v) : Cursor.isBlank c = false := by
  cases h with
  | number hc =>
      have hblank (x : Char) (hx : Cursor.isBlank x = true) : isNumberStart x = false := by
        simp only [Cursor.isBlank, Bool.or_eq_true, decide_eq_true_eq] at hx
        rcases hx with ((rfl | rfl) | rfl) | rfl <;> rfl
      cases h : Cursor.isBlank c with
      | false => rfl
      | true => cases hc.symm.trans (hblank c h)
  | _ => decide

/-- It does not begin with the bracket that closes a list, which would stand for no item. -/
theorem Begins.ne_close {c : Char} {v : Tree} (h : Begins c v) : c ≠ ']' := by
  cases h with
  | number hc => exact ne_of_isNumberStart hc rfl
  | _ => decide

/-- Neither does it begin with a comma. -/
theorem Begins.ne_comma {c : Char} {v : Tree} (h : Begins c v) : c ≠ ',' := by
  cases h with
  | number hc => exact ne_of_isNumberStart hc rfl
  | _ => decide

/-- The text of a value begins with what a value begins with. -/
theorem Spells.leads {t : List Char} {v : Tree} (h : Spells t v) : Leads t := by
  obtain ⟨c, cs, rfl, hc⟩ := h.first
  exact ⟨c, cs, rfl, hc.not_blank, hc.ne_close⟩

theorem Spells.length_pos {t : List Char} {v : Tree} (h : Spells t v) : 0 < t.length := by
  obtain ⟨c, cs, rfl, -⟩ := h.first
  exact Nat.succ_pos _

/-! ### Rows -/

/-- What stands behind an item does not go on like a number. -/
theorem Row.follows {close : Char} {ts : List Char} {texts : List (List Char)}
    (h : Row close false ts texts) (hclose : isNumeral close = false) (rest : List Char) :
    Follows (ts ++ rest) := by
  cases h with
  | nil hbs =>
      rw [List.append_assoc]
      exact follows_of_blank hbs (follows_cons hclose rest)
  | next hbs _ _ =>
      rw [List.append_assoc]
      exact follows_of_blank hbs (follows_cons rfl _)

/-- A row is longer than its items are many, by its bracket and by the commas. So the length of a
text is steps enough for any row in it. -/
theorem Row.length_le {close : Char} {first : Bool} {ts : List Char} {texts : List (List Char)}
    (h : Row close first ts texts) : texts.length + (if first then 0 else 1) ≤ ts.length := by
  induction h with
  | nil _ =>
      rw [List.length_append, List.length_singleton, List.length_nil]
      split <;> omega
  | first _ _ ih =>
      rw [if_neg Bool.false_ne_true] at ih
      rw [if_pos rfl, List.length_append, List.length_append, List.length_cons]
      omega
  | next _ _ _ ih =>
      simp only [Bool.false_eq_true, if_false, List.length_append, List.length_cons] at ih ⊢
      omega

end FacetQuery.Json
