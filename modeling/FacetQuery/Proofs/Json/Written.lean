import FacetQuery.Json.Writer
import FacetQuery.Proofs.Json.Grammar
import FacetQuery.Proofs.Json.Reader.Decimals

/-!
# Json — What is written is JSON

Whatever value is written, its text is one of the grammar, and of the same value: with the same
strings and members in the same order, and with each of its numbers in digits.

* `Value.toTree`: a value as it is written, given the digits of its numbers.
* `spellsString_quote`, `Number.exists_spelling`: strings and numbers.
* `Value.spells_write`, `Value.writes_write`: any value.
-/

namespace FacetQuery.Json

open Reader

namespace Value

mutual

/-- `toTree f v` is the value `v` as it is written, if each of its numbers `n` is written with the
parts `f n`. -/
def toTree (f : Number → NumberParts) : Value → Tree
  | .null           => .null
  | .bool b         => .bool b
  | .number n       => .number (f n)
  | .string s       => .string (some s)
  | .array items    => .array (treesOf f items)
  | .object members => .object (entriesOf f members)

/-- `treesOf f vs` are the items of a list as they are written. -/
def treesOf (f : Number → NumberParts) : List Value → List Tree
  | []      => []
  | v :: vs => v.toTree f :: treesOf f vs

/-- `entriesOf f ms` are the members of an object as they are written. -/
def entriesOf (f : Number → NumberParts) : List (String × Value) → List (Option String × Tree)
  | []           => []
  | (k, v) :: ms => (some k, v.toTree f) :: entriesOf f ms

end

variable (f : Number → NumberParts)

/-- The items of a list are written one by one. -/
theorem treesOf_eq_map (vs : List Value) : treesOf f vs = vs.map (toTree f) := by
  induction vs with
  | nil => rfl
  | cons v vs ih => rw [treesOf, ih, List.map_cons]

theorem entriesOf_eq_map (ms : List (String × Value)) :
    entriesOf f ms = ms.map fun m => (some m.1, m.2.toTree f) := by
  induction ms with
  | nil => rfl
  | cons m ms ih => rw [entriesOf, ih, List.map_cons]

@[simp] theorem toTree_null : toTree f .null = .null := by rw [toTree]

@[simp] theorem toTree_bool (b : Bool) : toTree f (.bool b) = .bool b := by rw [toTree]

@[simp] theorem toTree_number (n : Number) : toTree f (.number n) = .number (f n) := by rw [toTree]

@[simp] theorem toTree_string (s : String) : toTree f (.string s) = .string (some s) := by
  rw [toTree]

@[simp] theorem toTree_array (items : List Value) :
    toTree f (.array items) = .array (items.map (toTree f)) := by
  rw [toTree, treesOf_eq_map]

@[simp] theorem toTree_object (members : List (String × Value)) :
    toTree f (.object members) = .object (members.map fun m => (some m.1, m.2.toTree f)) := by
  rw [toTree, entriesOf_eq_map]

end Value

/-! ### Strings -/

/-- A string is written between quotes. -/
theorem toList_quote (s : String) : (quote s).toList = '"' :: (s.toList.flatMap escape ++ ['"']) :=
  String.toList_ofList

/-- A control character is escaped by its number, and two hexadecimal digits are enough for it. -/
theorem hexValue?_control : ∀ n < 0x20,
    hexValue? ['0', '0', Text.hexDigit (n / 16), Text.hexDigit (n % 16)] = some n := by
  decide

/-- A character is spelled by its escape, if it has one, and by itself if not. -/
theorem spellsUnit_escape (c : Char) : SpellsUnit (escape c) (.char c) := by
  unfold escape
  split
  · next h => subst h; exact .simple rfl
  split
  · next h => subst h; exact .simple rfl
  split
  · next h => subst h; exact .simple rfl
  split
  · next h => subst h; exact .simple rfl
  split
  · next h => subst h; exact .simple rfl
  split
  · next h => subst h; exact .simple rfl
  split
  · next h => subst h; exact .simple rfl
  split
  · next h =>
      -- The number of a control character is no half of a pair.
      have hcode : StringUnit.ofCode c.toNat = .char c := by
        have hleading : isLeading c.toNat = false := by simp [isLeading]; omega
        have htrailing : isTrailing c.toNat = false := by simp [isTrailing]; omega
        rw [StringUnit.ofCode, hleading, htrailing, Bool.or_self, if_neg Bool.false_ne_true,
          Char.ofNat_toNat]
      have hspells := SpellsUnit.code rfl (hexValue?_control c.toNat h)
      rwa [hcode] at hspells
  · next hquote hback _ _ _ _ _ h => exact .plain hquote hback h

/-- A row of characters is spelled by their escapes, with a quote behind them. -/
theorem spellsUnits_escape (cs : List Char) :
    SpellsUnits (cs.flatMap escape ++ ['"']) (cs.map .char) := by
  induction cs with
  | nil => exact .close
  | cons c cs ih =>
      rw [List.flatMap_cons, List.append_assoc]
      exact .cons (spellsUnit_escape c) ih

/-- **A string** is spelled by its characters, as they are escaped. -/
theorem spellsString_quote (s : String) :
    SpellsString (s.toList.flatMap escape ++ ['"']) (some s) :=
  ⟨s.toList.map .char, spellsUnits_escape _, by
    rw [StringUnit.decode_map_char, Option.map_some, String.ofList_toList]⟩

/-! ### Numbers -/

/-- `Spelling f`: the parts `f n` spell the text of each number `n`, and they are read as what is read
from this text again. A whole number is spelled by its digits. -/
structure Number.Spelling (f : Number → NumberParts) : Prop where
  spells : ∀ n, SpellsNumber n.text.toList (f n)
  number? : ∀ n, (f n).number? = some n.reread
  whole : ∀ i, f (.whole i) = wholeParts i

/-- **Numbers** have such parts, a whole number its digits and a double digits with a point or an
exponent. -/
theorem Number.exists_spelling : ∃ f, Spelling f := by
  choose f hf using exists_parts
  refine ⟨f, fun n => ?_, fun n => (hf n).2.2.1, fun i => (hf _).2.2.2 i rfl⟩
  rw [(hf n).2.1]
  exact (hf n).1.spellsNumber

/-! ### Brackets -/

namespace Spacing

/-- Between the parts of a text stand blanks, and keys are followed by a colon and blanks. -/
structure IsBlank (sp : Spacing) : Prop where
  line : ∀ level, Blank (sp.lineAt level).toList
  colon : ∃ blanks, sp.colon.toList = ':' :: blanks ∧ Blank blanks

/-- A new line and spaces in front of a part are blanks, and so is the space behind a colon. -/
theorem isBlank_indented : IsBlank .indented where
  line level := by
    intro c hc
    rw [Spacing.indented, String.toList_ofList] at hc
    rcases List.mem_cons.mp hc with rfl | hc
    · rfl
    · rw [List.eq_of_mem_replicate hc]
      rfl
  colon := ⟨[' '], rfl, by simp [Blank, Cursor.isBlank]⟩

end Spacing

/-- The items of a list behind its first one: each behind a comma and blanks. -/
def tail (line : List Char) (texts : List (List Char)) : List Char :=
  texts.flatMap fun t => ',' :: (line ++ t)

theorem tail_cons (line t : List Char) (texts : List (List Char)) :
    tail line (t :: texts) = ',' :: (line ++ (t ++ tail line texts)) := by
  simp [tail]

/-- Commas between parts are commas in front of all but the first one. -/
theorem intercalate_comma (cs : List Char) (css : List (List Char)) :
    [','].intercalate (cs :: css) = cs ++ css.flatMap (',' :: ·) := by
  induction css generalizing cs with
  | nil => simp
  | cons ds css ih =>
      rw [List.intercalate_cons_cons, ih, List.flatMap_cons]
      simp

/-- Parts in brackets: the first one behind blanks, the others behind a comma and blanks. Before the
closing bracket stand blanks as well. -/
theorem toList_bracket (sp : Spacing) (level : Nat) (left right part : String)
    (parts : List String) :
    (Value.bracket sp level left right (part :: parts)).toList =
      left.toList ++ ((sp.lineAt (level + 1)).toList ++ (part.toList ++
        (tail (sp.lineAt (level + 1)).toList (parts.map String.toList) ++
          ((sp.lineAt level).toList ++ right.toList)))) := by
  have htail (line : List Char) : (parts.map fun p => line ++ p.toList).flatMap (',' :: ·) =
      tail line (parts.map String.toList) := by
    simp only [tail, List.flatMap_map]
  have hcomma : ",".toList = [','] := rfl
  simp only [Value.bracket, String.toList_append, String.toList_intercalate, List.map_map,
    List.map_cons, hcomma, intercalate_comma, Function.comp_def, htail, List.append_assoc]

/-- What stands behind a comma in brackets is one more part. -/
theorem row_tail {close : Char} {line closing : List Char} (hline : Blank line)
    (hclosing : Blank closing) (texts : List (List Char)) :
    Row close false (tail line texts ++ (closing ++ [close])) texts := by
  induction texts with
  | nil => exact .nil hclosing
  | cons t texts ih =>
      have hnext := Row.next (t := t) blank_nil hline ih
      rw [tail_cons]
      simpa only [List.nil_append, List.cons_append, List.append_assoc] using hnext

/-- **Parts in brackets** are a row. -/
theorem exists_row_bracket {sp : Spacing} (hsp : sp.IsBlank) (level : Nat) (left right : String)
    {x close : Char} (hleft : left.toList = [x]) (hright : right.toList = [close])
    (parts : List String) :
    ∃ t, (Value.bracket sp level left right parts).toList = x :: t ∧
      Row close true t (parts.map String.toList) := by
  cases parts with
  | nil =>
      refine ⟨[close], ?_, .nil blank_nil⟩
      rw [Value.bracket, String.toList_append, hleft, hright]
      rfl
  | cons part parts =>
      refine ⟨_, by rw [toList_bracket, hleft, List.cons_append], ?_⟩
      rw [List.nil_append, hright]
      exact .first (hsp.line _) (row_tail (hsp.line _) (hsp.line _) _)

/-! ### Values -/

namespace Value

variable {sp : Spacing} {f : Number → NumberParts}

theorem writeItems_eq_map (sp : Spacing) (level : Nat) (vs : List Value) :
    writeItems sp level vs = vs.map (write sp level) := by
  induction vs with
  | nil => rfl
  | cons v vs ih => rw [writeItems, ih, List.map_cons]

theorem writeMembers_eq_map (sp : Spacing) (level : Nat) (ms : List (String × Value)) :
    writeMembers sp level ms =
      ms.map fun m => quote m.1 ++ sp.colon ++ m.2.write sp level := by
  induction ms with
  | nil => rfl
  | cons m ms ih => rw [writeMembers, ih, List.map_cons]

/-- An item as it is written at a level of nesting. -/
def spelling (sp : Spacing) (level : Nat) (f : Number → NumberParts) (v : Value) :
    List Char × Tree :=
  ((v.write sp level).toList, v.toTree f)

/-- A member as it is written at a level of nesting, with the blanks behind its colon. -/
def memberSpelling (sp : Spacing) (blanks : List Char) (level : Nat) (f : Number → NumberParts)
    (m : String × Value) : Member :=
  ⟨m.1.toList.flatMap escape ++ ['"'], [], blanks, (m.2.write sp level).toList, some m.1,
    m.2.toTree f⟩

/-- A member is written as its key, a colon and its value. -/
theorem chars_memberSpelling {blanks : List Char} (hcolon : sp.colon.toList = ':' :: blanks)
    (level : Nat) (m : String × Value) :
    (memberSpelling sp blanks level f m).chars =
      (quote m.1 ++ sp.colon ++ m.2.write sp level).toList := by
  simp [memberSpelling, Member.chars, String.toList_append, hcolon, toList_quote]

theorem keyed_memberSpelling {blanks : List Char} (hblanks : Blank blanks) (level : Nat)
    (m : String × Value) : (memberSpelling sp blanks level f m).Keyed :=
  ⟨spellsString_quote m.1, blank_nil, hblanks⟩

/-- A list is spelled by its items in brackets. -/
theorem spells_items (hsp : sp.IsBlank) {level : Nat} {items : List Value}
    (h : ∀ v ∈ items, Spells (v.write sp (level + 1)).toList (v.toTree f)) :
    Spells ((array items).write sp level).toList ((array items).toTree f) := by
  rw [write, writeItems_eq_map, toTree_array]
  have hleft : "[".toList = ['['] := rfl
  have hright : "]".toList = [']'] := rfl
  obtain ⟨t, ht, hrow⟩ := exists_row_bracket hsp level "[" "]" hleft hright
    (items.map (write sp (level + 1)))
  rw [ht]
  have hspells := @Spells.array t (items.map (spelling sp (level + 1) f))
    (by simpa [List.map_map, Function.comp_def, spelling] using hrow)
    (List.forall_mem_map.mpr h)
  simpa [List.map_map, Function.comp_def, spelling] using hspells

/-- An object is spelled by its members in braces. -/
theorem spells_members (hsp : sp.IsBlank) {level : Nat} {members : List (String × Value)}
    (h : ∀ m ∈ members, Spells (m.2.write sp (level + 1)).toList (m.2.toTree f)) :
    Spells ((object members).write sp level).toList ((object members).toTree f) := by
  obtain ⟨blanks, hcolon, hblanks⟩ := hsp.colon
  rw [write, writeMembers_eq_map, toTree_object]
  have hleft : "\x7b".toList = ['\x7b'] := rfl
  have hright : "\x7d".toList = ['\x7d'] := rfl
  obtain ⟨t, ht, hrow⟩ := exists_row_bracket hsp level "\x7b" "\x7d" hleft hright
    (members.map fun m => quote m.1 ++ sp.colon ++ m.2.write sp (level + 1))
  rw [ht]
  have hspells := @Spells.object t (members.map (memberSpelling sp blanks (level + 1) f))
    (by simpa only [List.map_map, Function.comp_def, chars_memberSpelling hcolon] using hrow)
    (List.forall_mem_map.mpr fun m _ => keyed_memberSpelling hblanks _ m)
    (List.forall_mem_map.mpr h)
  simpa only [List.map_map, Function.comp_def, memberSpelling, Member.entry] using hspells

mutual

/-- **Any value** is spelled by its text, whatever the blanks in it are. The recursion is on the
value, with the items of a list and the members of an object. -/
theorem spells_write (hsp : sp.IsBlank) (hf : Number.Spelling f) :
    ∀ (v : Value) (level : Nat), Spells (v.write sp level).toList (v.toTree f)
  | .null, _           => by rw [write, toTree_null]; exact .null
  | .bool true, _      => by rw [write, toTree_bool]; exact .yes
  | .bool false, _     => by rw [write, toTree_bool]; exact .no
  | .number n, _       => by rw [write, toTree_number]; exact .number (hf.spells n)
  | .string s, _       => by
      rw [write, toTree_string, toList_quote]
      exact .string (spellsString_quote s)
  | .array items, _    => spells_items hsp (spells_writeItems hsp hf items _)
  | .object members, _ => spells_members hsp (spells_writeMembers hsp hf members _)

theorem spells_writeItems (hsp : sp.IsBlank) (hf : Number.Spelling f) :
    ∀ (vs : List Value) (level : Nat),
      ∀ v ∈ vs, Spells (v.write sp level).toList (v.toTree f)
  | [], _          => nofun
  | v :: vs, level =>
      List.forall_mem_cons.mpr ⟨spells_write hsp hf v level, spells_writeItems hsp hf vs level⟩

theorem spells_writeMembers (hsp : sp.IsBlank) (hf : Number.Spelling f) :
    ∀ (ms : List (String × Value)) (level : Nat),
      ∀ m ∈ ms, Spells (m.2.write sp level).toList (m.2.toTree f)
  | [], _          => nofun
  | m :: ms, level =>
      List.forall_mem_cons.mpr ⟨spells_write hsp hf m.2 level, spells_writeMembers hsp hf ms level⟩

end

/-- **The text of a value** is JSON, and so it is with blanks behind it. -/
theorem writes_write (hsp : sp.IsBlank) (hf : Number.Spelling f) (v : Value) {blanks : String}
    (hblanks : Blank blanks.toList) : Writes (v.write sp 0 ++ blanks) (v.toTree f) :=
  ⟨[], (v.write sp 0).toList, blanks.toList, String.toList_append, blank_nil, hblanks,
    spells_write hsp hf v 0⟩

end Value

end FacetQuery.Json
