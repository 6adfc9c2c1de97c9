import FacetQuery.Proofs.Schema.Accepted
import FacetQuery.Proofs.Schema.Structs
import Mathlib.Logic.Relation

/-!
# Schema — Documents that say the same

There are many ways to write a schema. Its objects may have their members in any order, and more of
them than the schema knows; a member with its default may be left out; and an object may be the list
of its fields. None of this changes what is read.

* `Schema.Edit`: one such change, anywhere in a schema.
* `Schema.valueOf_edit`: a change keeps what is read, at every place where it can be made.
* `Schema.read_edited`: so do any number of changes, in every text of a schema.
* `Schema.valueOf_lone`: a key must be a string, though, and half a surrogate pair is none.
-/

namespace FacetQuery.Schema

open Json Json.Reader

/-- `Edit levels k v w`: where a value of the kind `k` is due, and objects may still be nested
`levels` deep, `v` and `w` differ by one change that does not matter. -/
inductive Edit : Nat → Kind → Tree → Tree → Prop where
  /-- The members in another order. -/
  | reorder {levels : Nat} {s : Struct} {ms ms' : List (Option String × Tree)} : ms.Perm ms' →
      Edit levels (.struct s) (.object ms) (.object ms')
  /-- A member under an unknown key, with any value. -/
  | unknown {levels : Nat} {s : Struct} {before after : List (Option String × Tree)} {k : String}
      {v : Tree} : (∀ f ∈ s.record.fields, f.name ≠ k) →
      Edit levels (.struct s) (.object (before ++ after)) (.object (before ++ (some k, v) :: after))
  /-- A member that says what holds without it. -/
  | standard {levels : Nat} {s : Struct} {f : Field Kind.Value s.Parts} {a : f.kind.Value}
      {before after : List (Option String × Tree)} {v : Tree} : f ∈ s.record.fields →
      f.default? = some a → valueOf levels f.kind v = some a →
      (∀ m ∈ before ++ after, m.1 ≠ some f.name) →
      Edit (levels + 1) (.struct s) (.object (before ++ after))
        (.object (before ++ (some f.name, v) :: after))
  /-- The members in the order of the fields, without their names. -/
  | listed {levels : Nat} {s : Struct} {vs : List Tree} : vs.length ≤ s.record.fields.length →
      Edit levels (.struct s) (.object (s.record.named vs)) (.array vs)
  /-- A change in a member. -/
  | member {levels : Nat} {s : Struct} {f : Field Kind.Value s.Parts}
      {before after : List (Option String × Tree)} {v w : Tree} : f ∈ s.record.fields →
      Edit levels f.kind v w →
      Edit (levels + 1) (.struct s) (.object (before ++ (some f.name, v) :: after))
        (.object (before ++ (some f.name, w) :: after))
  /-- A change in a member of an object that is written as a list. -/
  | item {levels : Nat} {s : Struct} {f : Field Kind.Value s.Parts} {before after : List Tree}
      {v w : Tree} : s.record.fields[before.length]? = some f → Edit levels f.kind v w →
      Edit (levels + 1) (.struct s) (.array (before ++ v :: after)) (.array (before ++ w :: after))
  /-- A change in an element of the default sort. -/
  | element {levels : Nat} {before after : List Tree} {v w : Tree} :
      Edit levels (.struct .sortField) v w →
      Edit (levels + 1) .sortFields (.array (before ++ v :: after)) (.array (before ++ w :: after))

/-- Values that a record reads alike are read alike under any number of levels. -/
theorem valueOf_struct_congr {s : Struct} {v w : Tree}
    (h : ∀ value, s.record.read value v = s.record.read value w) (levels : Nat) :
    valueOf levels (.struct s) v = valueOf levels (.struct s) w := by
  cases levels with
  | zero => rfl
  | succ inner => exact h (valueOf inner)

/-- **A change keeps what is read**, at every place where it can be made. One case for each kind of
change, by what is known of records. -/
theorem valueOf_edit {levels : Nat} {k : Kind} {v w : Tree} (h : Edit levels k v w) :
    valueOf levels k v = valueOf levels k w := by
  induction h with
  | reorder h => exact valueOf_struct_congr (fun _ => Record.read_perm h) _
  | unknown hk => exact valueOf_struct_congr (fun _ => (Record.read_unknown hk _ _ _).symm) _
  | standard hf ha hv hnew => exact (Record.read_standard hf ha hv hnew).symm
  | listed hvs => exact valueOf_struct_congr (fun _ => (Record.read_listed hvs).symm) _
  | member hf _ ih => exact Record.read_member hf ih _ _
  | item hf _ ih => exact Record.read_item hf ih
  | @element levels before after v w _ ih =>
      rw [valueOf, valueOf, List.mapM_append, List.mapM_append, List.mapM_cons, List.mapM_cons, ih]

/-- `Edited levels k v w`: `v` and `w` differ by any number of changes that do not matter, made or
undone. -/
def Edited (levels : Nat) (k : Kind) : Tree → Tree → Prop :=
  Relation.EqvGen (Edit levels k)

/-- **Any number of changes** keeps what is read, made or undone. Induction on the changes. -/
theorem valueOf_edited {levels : Nat} {k : Kind} {v w : Tree} (h : Edited levels k v w) :
    valueOf levels k v = valueOf levels k w := by
  induction h with
  | rel _ _ h => exact valueOf_edit h
  | refl _ => rfl
  | symm _ _ _ ih => exact ih.symm
  | trans _ _ _ _ _ ih₁ ih₂ => exact ih₁.trans ih₂

/-! ### One schema in two spellings -/

/-- The number five. -/
def five : Tree := .number ⟨false, ['5'], none, none⟩

theorem spells_five : Spells ['5'] five :=
  .number (.intro (p := ⟨false, ['5'], none, none⟩)
    ⟨⟨by simp, by simp⟩, by simp, nofun, nofun⟩ .none)

theorem writes_page_object :
    Writes "\x7b\"page\":\x7b\"defaultSize\":5\x7d\x7d"
      (.object [(some "page", .object [(some "defaultSize", five)])]) :=
  .of_spells (.single (by simp) (.single (by simp) spells_five)) (by decide)

theorem writes_page_list :
    Writes "\x7b\"x\":null,\"page\":[true,5]\x7d"
      (.object [(some "x", .null), (some "page", .array [.bool true, five])]) := by
  have hpage := @Spells.array _ [(_, _), (_, _)]
    (.first blank_nil (.next blank_nil blank_nil (.nil blank_nil)))
    (List.forall_mem_cons.mpr ⟨.yes, List.forall_mem_singleton.mpr spells_five⟩)
  exact .of_spells (@Spells.object _ [.compact "x" _ _, .compact "page" _ _]
    (.first blank_nil (.next blank_nil blank_nil (.nil blank_nil)))
    (List.forall_mem_cons.mpr ⟨Member.keyed_compact (by simp) _ _,
      List.forall_mem_singleton.mpr (Member.keyed_compact (by simp) _ _)⟩)
    (List.forall_mem_cons.mpr ⟨.null, List.forall_mem_singleton.mpr hpage⟩)) (by decide)

/-- An unknown key is added, a default is written out, and a list takes the place of an object:
three changes, one after another. -/
theorem edited_page : Edited maxLevels (.struct .schema)
    (.object [(some "page", .object [(some "defaultSize", five)])])
    (.object [(some "x", .null), (some "page", .array [.bool true, five])]) := by
  have hx : Edit maxLevels (.struct .schema)
      (.object [(some "page", .object [(some "defaultSize", five)])])
      (.object [(some "x", .null), (some "page", .object [(some "defaultSize", five)])]) :=
    @Edit.unknown _ _ [] _ _ _ (by decide)
  have hon : Edit 126 (.struct .page) (.object [(some "defaultSize", five)])
      (.object [(some "isEnabled", .bool true), (some "defaultSize", five)]) :=
    @Edit.standard 125 .page pageRecord.fields[0] true [] [_] _ (List.getElem_mem _) rfl rfl
      (List.forall_mem_singleton.mpr (by decide))
  have hlist : Edit 126 (.struct .page)
      (.object [(some "isEnabled", .bool true), (some "defaultSize", five)])
      (.array [.bool true, five]) :=
    @Edit.listed _ .page [_, _] (by decide)
  have hpage {v w : Tree} (h : Edit 126 (.struct .page) v w) : Edit maxLevels (.struct .schema)
      (.object [(some "x", .null), (some "page", v)])
      (.object [(some "x", .null), (some "page", w)]) :=
    @Edit.member 126 .schema schemaRecord.fields[2] [_] [] _ _ (List.getElem_mem _) h
  exact .trans _ _ _ (.rel _ _ hx) (.trans _ _ _ (.rel _ _ (hpage hon)) (.rel _ _ (hpage hlist)))

/-! ### Documents that say the same -/

/-- **Documents that say the same** are read as the same schema, and its pages are none that are
empty: an accepted text is one of a value, and any text of a value that differs from it by changes
that do not matter is accepted too. -/
theorem read_edited {text : String} {s : Schema} (h : read text = .ok s) :
    (∃ v, Writes text v) ∧
      (∀ v v' text', Writes text v → Edited maxLevels (.struct .schema) v v' → Writes text' v' →
        read text' = .ok s) ∧
      1 ≤ s.page.defaultSize ∧ 1 ≤ s.page.defaultNumber := by
  refine ⟨(read_eq_ok_iff_exists.mp h).imp fun _ => And.left, ?_, ?_⟩
  · intro v v' text' hv hedited hv'
    -- What is read of a text is what its value is good for, whichever text it is.
    rw [read_eq_ok_iff hv', ← valueOf_edited hedited]
    exact (read_eq_ok_iff hv).mp h
  · exact ⟨(accepted_of_read h).size, (accepted_of_read h).number⟩

/-- A page schema as an object without `isEnabled`, and as a list, next to an unknown key. -/
theorem read_page_as_list :
    read "\x7b\"page\":\x7b\"defaultSize\":5\x7d\x7d"
        = .ok { Schema.standard with page := ⟨true, 5, 1⟩ } ∧
      read "\x7b\"x\":null,\"page\":[true,5]\x7d"
        = .ok { Schema.standard with page := ⟨true, 5, 1⟩ } := by
  have hread : read "\x7b\"page\":\x7b\"defaultSize\":5\x7d\x7d"
      = .ok { Schema.standard with page := ⟨true, 5, 1⟩ } := by decide +kernel
  exact ⟨hread, (read_edited hread).2.1 _ _ _ writes_page_object edited_page writes_page_list⟩

/-! ### Keys that are none -/

/-- Half a surrogate pair is no key: with such a member, an object of a schema is not good. -/
theorem valueOf_lone {s : Struct} {v : Tree} {ms : List (Option String × Tree)}
    (h : (none, v) ∈ ms) (levels : Nat) : valueOf levels (.struct s) (.object ms) = none := by
  cases levels with
  | zero => rfl
  | succ inner => exact Record.read_eq_none_of_lone h

/-- Half a surrogate pair, as it is escaped, is no row of characters. -/
theorem spellsString_lone : SpellsString ['\\', 'u', 'd', '8', '0', '0', '"'] none := by
  have hcode : SpellsUnit ['\\', 'u', 'd', '8', '0', '0'] (.half 0xD800) :=
    .code (n := 0xD800) rfl rfl
  exact ⟨[.half 0xD800], .cons hcode .close, rfl⟩

/-- The grammar has a text for a key that is half a surrogate pair. -/
theorem writes_lone_key : Writes "\x7b\"\\ud800\":null\x7d" (.object [(none, .null)]) :=
  .of_spells (@Spells.object _ [⟨_, [], [], _, none, .null⟩]
    (.first blank_nil (.nil blank_nil))
    (List.forall_mem_singleton.mpr ⟨spellsString_lone, blank_nil, blank_nil⟩)
    (List.forall_mem_singleton.mpr .null)) (by decide)

/-- An empty object is a schema; with half a surrogate pair for an unknown key it is none. -/
theorem lone_key_rejected :
    read "\x7b\x7d" = .ok .standard ∧
      Writes "\x7b\"\\ud800\":null\x7d" (.object [(none, .null)]) ∧
      ∀ s, read "\x7b\"\\ud800\":null\x7d" ≠ .ok s := by
  refine ⟨by decide +kernel, writes_lone_key, fun s hs => ?_⟩
  have hnone := valueOf_lone (s := .schema) (List.mem_singleton_self (none, Tree.null)) maxLevels
  cases hnone.symm.trans ((read_eq_ok_iff writes_lone_key).mp hs)

end FacetQuery.Schema
