import FacetQuery.Proofs.Json.Reader.Interprets
import Mathlib.Data.List.Forall2
import Mathlib.Data.List.Pairwise

/-!
# Json — Reader — What readers make of a record

A record is read into a state, field by field. Its members may stand in any order, unknown ones do
not matter, and neither does a member with the default of its field.

* `Field`, `Record`: the fields of a record, each with its place in the state; writes to two places
  do not disturb each other.
* `Record.read_perm`, `Record.read_unknown`, `Record.read_standard`, `Record.read_listed`: objects
  and lists that are read as the same record.
* `Reader.interprets_record`: the reader of records.
-/

namespace FacetQuery.Json

variable {κ : Type} {V : κ → Type} {σ α β : Type}

/-! ### Fields -/

/-- A field of a record that is read into a state `σ`. The values of the kind `k` are `V k`. -/
structure Field (V : κ → Type) (σ : Type) where
  name : String
  kind : κ
  /-- What the field is if it is left out, unless it must be there. -/
  default? : Option (V kind)
  /-- What has been read of the field. -/
  get : σ → Option (V kind)
  set : V kind → σ → σ

/-- `Independent f g`: the fields `f` and `g` have two names and two places. -/
structure Field.Independent (f g : Field V σ) : Prop where
  name_ne : f.name ≠ g.name
  get_set : ∀ b s, f.get (g.set b s) = f.get s
  get_set' : ∀ a s, g.get (f.set a s) = g.get s
  set_set : ∀ a b s, f.set a (g.set b s) = g.set b (f.set a s)

instance : Std.Symm (@Field.Independent κ V σ) where
  symm _ _ h := ⟨h.name_ne.symm, h.get_set', h.get_set, fun b a s => (h.set_set a b s).symm⟩

/-- The fields of a record, and what the state comes to in the end. -/
structure Record (V : κ → Type) (σ α : Type) where
  fields : List (Field V σ)
  empty : σ
  /-- The record, if all is there that must be. -/
  finish : σ → Option α
  independent : fields.Pairwise Field.Independent
  get_set : ∀ f ∈ fields, ∀ a s, f.get (f.set a s) = some a
  get_empty : ∀ f ∈ fields, f.get empty = none
  /-- A field that is left out is completed by its default. -/
  finish_set : ∀ f ∈ fields, ∀ a, f.default? = some a → ∀ s, f.get s = none →
    finish (f.set a s) = finish s

/-! ### Reading -/

/-- `f.setOnce value v s` reads the field `f` of the tree `v`, unless it has been read before. -/
def Field.setOnce (value : (k : κ) → Tree → Option (V k)) (f : Field V σ) (v : Tree) (s : σ) :
    Option σ :=
  if (f.get s).isSome then none else (value f.kind v).map (f.set · s)

/-- `setMember value fields k v s` reads the tree `v` under the key `k`. An unknown key is passed
over. -/
def setMember (value : (k : κ) → Tree → Option (V k)) (fields : List (Field V σ)) (k : String)
    (v : Tree) (s : σ) : Option σ :=
  match fields.find? (·.name = k) with
  | some f => f.setOnce value v s
  | none => some s

/-- `setItems value fields vs s` reads the trees `vs` one after another, each for one field. -/
def setItems (value : (k : κ) → Tree → Option (V k)) : List (Field V σ) → List Tree → σ → Option σ
  | _, [], s           => some s
  | [], _ :: _, _      => none
  | f :: fs, v :: vs, s => (value f.kind v).bind fun a => setItems value fs vs (f.set a s)

namespace Record

variable (R : Record V σ α) (value : (k : κ) → Tree → Option (V k))

/-- `R.read value v` is the record that `v` is, as an object or as the list of its fields. -/
def read : Tree → Option α
  | .object ms => (Tree.foldMembers (setMember value R.fields) ms R.empty).bind R.finish
  | .array vs  => (setItems value R.fields vs R.empty).bind R.finish
  | _          => none

variable {R value}

/-- Two fields of a record are told apart by their names. -/
theorem independent_of_ne {f g : Field V σ} (hf : f ∈ R.fields) (hg : g ∈ R.fields)
    (h : f.name ≠ g.name) : f.Independent g :=
  R.independent.forall hf hg (by rintro rfl; exact h rfl)

/-- A field is found under its own name. -/
theorem find?_name {f : Field V σ} (hf : f ∈ R.fields) :
    R.fields.find? (·.name = f.name) = some f := by
  cases h : R.fields.find? (·.name = f.name) with
  | none => simpa using List.find?_eq_none.mp h f hf
  | some g =>
      have hg := List.mem_of_find?_eq_some h
      have hname : g.name = f.name := by simpa using List.find?_some h
      by_cases hgf : g = f
      · rw [hgf]
      · exact absurd hname (R.independent.forall hg hf hgf).name_ne

/-- A member under the name of a field is read by this field. -/
theorem setMember_name {f : Field V σ} (hf : f ∈ R.fields) (v : Tree) :
    setMember value R.fields f.name v = f.setOnce value v := by
  funext s
  rw [setMember, find?_name hf]

/-- A member under any other key is passed over. -/
theorem setMember_unknown {k : String} (hk : ∀ f ∈ R.fields, f.name ≠ k) (v : Tree) :
    setMember value R.fields k v = some := by
  have h : R.fields.find? (·.name = k) = none :=
    List.find?_eq_none.mpr fun f hf => by simpa using hk f hf
  funext s
  rw [setMember, h]

/-- A key is the name of a field, or none is. -/
theorem exists_name_or_unknown (R : Record V σ α) (k : String) :
    (∃ f ∈ R.fields, f.name = k) ∨ ∀ f ∈ R.fields, f.name ≠ k := by
  by_cases h : ∃ f ∈ R.fields, f.name = k
  · exact .inl h
  · exact .inr fun f hf hk => h ⟨f, hf, hk⟩

/-- A field that has been read is set to what its value is. -/
theorem exists_of_setOnce {f : Field V σ} {v : Tree} {s s' : σ}
    (h : f.setOnce value v s = some s') : ∃ a, value f.kind v = some a ∧ f.set a s = s' := by
  unfold Field.setOnce at h
  split at h
  · cases h
  · exact Option.map_eq_some_iff.mp h

/-- A member of another name leaves a field as it is. -/
theorem get_of_setMember {f : Field V σ} (hf : f ∈ R.fields) {k : String} (hk : k ≠ f.name)
    {v : Tree} {s s' : σ} (h : setMember value R.fields k v s = some s') : f.get s' = f.get s := by
  rcases exists_name_or_unknown R k with ⟨g, hg, rfl⟩ | hunknown
  · rw [setMember_name hg] at h
    obtain ⟨a, -, rfl⟩ := exists_of_setOnce h
    exact (independent_of_ne hf hg hk.symm).get_set a s
  · rw [setMember_unknown hunknown] at h
    cases h
    rfl

/-! ### The order of members -/

/-- A field is never read twice. A second member of its name makes the record fail. -/
theorem setOnce_setOnce {f : Field V σ} (hf : f ∈ R.fields) (v w : Tree) (s : σ) :
    (f.setOnce value v s).bind (f.setOnce value w) = none := by
  refine Option.bind_eq_none_iff.mpr fun s' h => ?_
  obtain ⟨a, -, rfl⟩ := exists_of_setOnce h
  rw [Field.setOnce, R.get_set f hf]
  rfl

/-- Two fields that are independent may be read in either order. -/
theorem setOnce_comm {f g : Field V σ} (h : f.Independent g) (v w : Tree) (s : σ) :
    (f.setOnce value v s).bind (g.setOnce value w) =
      (g.setOnce value w s).bind (f.setOnce value v) := by
  unfold Field.setOnce
  cases hf : f.get s <;> cases hg : g.get s <;> cases value f.kind v <;> cases value g.kind w <;>
    simp [h.get_set, h.get_set', h.set_set, hf, hg]

/-- **Two members** may be read in either order, whatever their names are. With one name for both,
the record fails in both orders. -/
theorem setMember_comm (k : String) (v : Tree) (l : String) (w : Tree) (s : σ) :
    (setMember value R.fields k v s).bind (setMember value R.fields l w) =
      (setMember value R.fields l w s).bind (setMember value R.fields k v) := by
  rcases exists_name_or_unknown R k with ⟨f, hf, rfl⟩ | hk
  · rcases exists_name_or_unknown R l with ⟨g, hg, rfl⟩ | hl
    · rw [setMember_name hf, setMember_name hg]
      by_cases hfg : f.name = g.name
      · obtain rfl : f = g := Option.some.inj ((find?_name hf).symm.trans (hfg ▸ find?_name hg))
        rw [setOnce_setOnce hf, setOnce_setOnce hf]
      · exact setOnce_comm (independent_of_ne hf hg hfg) v w s
    · rw [setMember_unknown hl, Option.bind_fun_some, Option.bind_some]
  · rw [setMember_unknown hk, Option.bind_fun_some, Option.bind_some]

/-- Members that may be swapped may stand in any order. The induction is on the swaps that a
permutation is made of. -/
theorem foldMembers_perm {step : String → Tree → σ → Option σ}
    (hcomm : ∀ k v l w s, (step k v s).bind (step l w) = (step l w s).bind (step k v))
    {ms ms' : List (Option String × Tree)} (h : ms.Perm ms') (s : σ) :
    Tree.foldMembers step ms s = Tree.foldMembers step ms' s := by
  induction h generalizing s with
  | nil => rfl
  | cons m _ ih =>
      obtain ⟨_ | k, v⟩ := m
      · rfl
      · rw [Tree.foldMembers, Tree.foldMembers, funext ih]
  | swap m m' ms =>
      obtain ⟨_ | k, v⟩ := m <;> obtain ⟨_ | l, w⟩ := m'
      · rfl
      · simp [Tree.foldMembers]
      · simp [Tree.foldMembers]
      · simp only [Tree.foldMembers, ← Option.bind_assoc]
        rw [hcomm]
  | trans _ _ ih₁ ih₂ => rw [ih₁, ih₂]

/-- **Members may stand in any order.** Each serves a field of its own, and setting one field does
not change what another one holds. -/
theorem read_perm {ms ms' : List (Option String × Tree)} (h : ms.Perm ms') :
    R.read value (.object ms) = R.read value (.object ms') := by
  rw [read, read, foldMembers_perm setMember_comm h]

/-! ### Members that do not matter -/

/-- Members are read from left to right. -/
theorem foldMembers_append (step : String → Tree → σ → Option σ)
    (ms ms' : List (Option String × Tree)) (s : σ) :
    Tree.foldMembers step (ms ++ ms') s =
      (Tree.foldMembers step ms s).bind (Tree.foldMembers step ms') := by
  induction ms generalizing s with
  | nil => rfl
  | cons m ms ih =>
      obtain ⟨_ | k, v⟩ := m
      · rfl
      · rw [List.cons_append, Tree.foldMembers, Tree.foldMembers, Option.bind_assoc, funext ih]

/-- **A member under an unknown key** does not matter, whatever its value is, and wherever it stands
among the others. -/
theorem read_unknown {k : String} (hk : ∀ f ∈ R.fields, f.name ≠ k) (v : Tree)
    (before after : List (Option String × Tree)) :
    R.read value (.object (before ++ (some k, v) :: after)) =
      R.read value (.object (before ++ after)) := by
  have hcons (s : σ) : Tree.foldMembers (setMember value R.fields) ((some k, v) :: after) s =
      Tree.foldMembers (setMember value R.fields) after s := by
    rw [Tree.foldMembers, setMember_unknown hk, Option.bind_some]
  rw [read, read, foldMembers_append, foldMembers_append, funext hcons]

/-- A key that is no row of characters does. -/
theorem read_eq_none_of_lone {v : Tree} {ms : List (Option String × Tree)} (h : (none, v) ∈ ms) :
    R.read value (.object ms) = none := by
  have hnone (s : σ) : Tree.foldMembers (setMember value R.fields) ms s = none := by
    obtain ⟨before, after, rfl⟩ := List.append_of_mem h
    rw [foldMembers_append]
    cases Tree.foldMembers (setMember value R.fields) before s <;> rfl
  rw [read, hnone, Option.bind_none]

/-- A field that no member names stays as it is, by induction on the members. -/
theorem get_of_foldMembers {f : Field V σ} (hf : f ∈ R.fields)
    {ms : List (Option String × Tree)} (hms : ∀ m ∈ ms, m.1 ≠ some f.name) {s s' : σ}
    (h : Tree.foldMembers (setMember value R.fields) ms s = some s') : f.get s' = f.get s := by
  induction ms generalizing s with
  | nil => cases h; rfl
  | cons m ms ih =>
      obtain ⟨_ | k, v⟩ := m
      · cases h
      · obtain ⟨hk, hms⟩ := List.forall_mem_cons.mp hms
        obtain ⟨s₁, hs₁, h⟩ := Option.bind_eq_some_iff.mp h
        rw [ih hms h, get_of_setMember hf (fun h => hk (congrArg some h)) hs₁]

/-- **A member with the default of its field** may be left out. What it sets is what finishing the
record would set in its place. -/
theorem read_standard {f : Field V σ} (hf : f ∈ R.fields) {a : V f.kind} (ha : f.default? = some a)
    {d : Tree} (hd : value f.kind d = some a) {before after : List (Option String × Tree)}
    (hnew : ∀ m ∈ before ++ after, m.1 ≠ some f.name) :
    R.read value (.object (before ++ (some f.name, d) :: after)) =
      R.read value (.object (before ++ after)) := by
  -- As the last member, it comes to a state in which its field has not been read.
  have hlast : (before ++ (some f.name, d) :: after).Perm
      ((before ++ after) ++ [(some f.name, d)]) := by
    rw [List.append_assoc]
    exact (List.perm_append_singleton _ after).symm.append_left before
  rw [read_perm hlast, read, read, foldMembers_append, Option.bind_assoc]
  cases h : Tree.foldMembers (setMember value R.fields) (before ++ after) R.empty with
  | none => rfl
  | some s =>
      have hget : f.get s = none := (get_of_foldMembers hf hnew h).trans (R.get_empty f hf)
      have hset : Tree.foldMembers (setMember value R.fields) [(some f.name, d)] s =
          some (f.set a s) := by
        rw [Tree.foldMembers, setMember_name hf, Field.setOnce, hget, hd]
        rfl
      rw [Option.bind_some, Option.bind_some, hset]
      exact R.finish_set f hf a ha s hget

/-! ### Lists of fields -/

/-- `R.named vs` are the trees `vs` as members, under the names of the fields in their order. -/
def named (R : Record V σ α) (vs : List Tree) : List (Option String × Tree) :=
  (R.fields.map (some ·.name)).zip vs

/-- Members under the names of fields in their order are read as the bare values are. The state in
which a field is read may have others set, but not this one. -/
theorem foldMembers_zip {fs : List (Field V σ)} (hfs : fs.Pairwise Field.Independent)
    (hsub : fs ⊆ R.fields) {vs : List Tree} (hvs : vs.length ≤ fs.length) {s : σ}
    (hs : ∀ f ∈ fs, f.get s = none) :
    Tree.foldMembers (setMember value R.fields) ((fs.map (some ·.name)).zip vs) s =
      setItems value fs vs s := by
  induction fs generalizing vs s with
  | nil =>
      obtain rfl := List.eq_nil_of_length_eq_zero (Nat.le_zero.mp hvs)
      rfl
  | cons f fs ih =>
      obtain ⟨hf, hfs⟩ := List.pairwise_cons.mp hfs
      obtain ⟨hmem, hsub⟩ := List.cons_subset.mp hsub
      obtain ⟨hget, hs⟩ := List.forall_mem_cons.mp hs
      cases vs with
      | nil => rfl
      | cons v vs =>
          rw [List.map_cons, List.zip_cons_cons, Tree.foldMembers, setMember_name hmem,
            Field.setOnce, hget, setItems, Option.isSome_none, if_neg Bool.false_ne_true,
            Option.map_eq_bind, Option.bind_assoc]
          congr 1
          funext a
          refine ih hfs hsub (Nat.le_of_succ_le_succ hvs) fun g hg => ?_
          -- What one field has set is not what the others look at.
          rw [(hf g hg).get_set', hs g hg]

/-- **A list of fields** in their order is read as the object with these members. It may end early,
and then the fields behind are missing from both. -/
theorem read_listed {vs : List Tree} (hvs : vs.length ≤ R.fields.length) :
    R.read value (.array vs) = R.read value (.object (R.named vs)) := by
  rw [read, read, named,
    foldMembers_zip R.independent (List.Subset.refl _) hvs R.get_empty]

/-- **An object with the fields in their order** is read one field after another, which is how a
record is written. -/
theorem read_named {vs : List Tree} (hvs : vs.length ≤ R.fields.length) :
    R.read value (.object (R.named vs)) = (setItems value R.fields vs R.empty).bind R.finish :=
  (read_listed hvs).symm

/-! ### Values inside a record -/

/-- **The value of a member** counts only as far as its field makes something of it: two values of
which it makes the same are read alike. -/
theorem read_member {f : Field V σ} (hf : f ∈ R.fields) {v w : Tree}
    (h : value f.kind v = value f.kind w) (before after : List (Option String × Tree)) :
    R.read value (.object (before ++ (some f.name, v) :: after)) =
      R.read value (.object (before ++ (some f.name, w) :: after)) := by
  have hset : f.setOnce value v = f.setOnce value w := by
    funext s
    rw [Field.setOnce, Field.setOnce, h]
  have hcons (s : σ) : Tree.foldMembers (setMember value R.fields) ((some f.name, v) :: after) s =
      Tree.foldMembers (setMember value R.fields) ((some f.name, w) :: after) s := by
    rw [Tree.foldMembers, Tree.foldMembers, setMember_name hf, setMember_name hf, hset]
  rw [read, read, foldMembers_append, foldMembers_append, funext hcons]

/-- In a list of fields, a value counts by its place. -/
theorem setItems_item {fs : List (Field V σ)} {before after : List Tree} {f : Field V σ}
    (hf : fs[before.length]? = some f) {v w : Tree} (h : value f.kind v = value f.kind w) (s : σ) :
    setItems value fs (before ++ v :: after) s = setItems value fs (before ++ w :: after) s := by
  induction before generalizing fs s with
  | nil =>
      cases fs with
      | nil => cases hf
      | cons g fs =>
          cases hf
          rw [List.nil_append, List.nil_append, setItems, setItems, h]
  | cons u before ih =>
      cases fs with
      | nil => cases hf
      | cons g fs =>
          rw [List.cons_append, List.cons_append, setItems, setItems]
          congr 1
          funext a
          exact ih hf (g.set a s)

/-- **A value in a list of fields** counts in the same way, by the field at its place. -/
theorem read_item {before after : List Tree} {f : Field V σ}
    (hf : R.fields[before.length]? = some f) {v w : Tree} (h : value f.kind v = value f.kind w) :
    R.read value (.array (before ++ v :: after)) =
      R.read value (.array (before ++ w :: after)) := by
  rw [read, read, setItems_item hf h]

end Record

/-! ### The reader of records -/

/-- `R.interpret value levels v` is the record that `v` is, if it may still be opened. -/
def Record.interpret (R : Record V σ α) (value : Nat → (k : κ) → Tree → Option (V k)) :
    Nat → Tree → Option α
  | 0, _         => none
  | inner + 1, v => R.read (value inner) v

/-- Nothing else is a record. -/
theorem Record.interpret_eq_none {R : Record V σ α} {value : Nat → (k : κ) → Tree → Option (V k)}
    {v : Tree} (harray : ∀ vs, v ≠ .array vs) (hobject : ∀ ms, v ≠ .object ms) {levels : Nat} :
    R.interpret value levels v = none := by
  cases levels with
  | zero => rfl
  | succ inner =>
      cases v with
      | array vs => exact absurd rfl (harray vs)
      | object ms => exact absurd rfl (hobject ms)
      | _ => rfl

namespace Reader

/-- `Serves value levels slot f`: the reader of the slot reads the field `f`. -/
structure Serves (value : (k : κ) → Tree → Option (V k)) (levels : Nat) (slot : Slot σ)
    (f : Field V σ) : Prop where
  name : slot.name = f.name
  isSet : ∀ s, slot.isSet s = (f.get s).isSome
  read : ∀ s, Interprets (slot.read levels s) fun v => (value f.kind v).map (f.set · s)

variable {value : (k : κ) → Tree → Option (V k)} {inner : Nat} {slots : List (Slot σ)}
  {fs : List (Field V σ)}

/-- A reader of the value and a place in the state are what serves a field. -/
theorem Serves.of_interprets {slot : Slot σ} {f : Field V σ} {r : Reader (V f.kind)}
    (hname : slot.name = f.name) (hisSet : ∀ s, slot.isSet s = (f.get s).isSome)
    (hread : ∀ s, slot.read inner s = do return f.set (← r) s)
    (hr : Interprets r (value f.kind)) : Serves value inner slot f :=
  ⟨hname, hisSet, fun s => hread s ▸ hr.map (f.set · s)⟩

/-- Members are read by the fields that serve them, and unknown ones are skipped. A field that comes
again is refused. -/
theorem steps_member (h : List.Forall₂ (Serves value inner) slots fs) :
    Steps (member slots inner) (setMember value fs) := by
  intro k s bs bs' t v rest hbs hbs' ht hrest
  unfold member setMember
  induction h with
  | nil =>
      exact (yields_colon hbs _).andThen
        ((interprets_skipValue hbs' ht hrest).andThen (.pure s rest))
  | @cons slot f slots fs hslot _ ih =>
      rw [List.find?_cons, List.find?_cons, hslot.name]
      cases decide (f.name = k) with
      | false => exact ih
      | true =>
          simp only [Field.setOnce, hslot.isSet]
          split
          · exact .unfit _
          · exact (yields_colon hbs _).andThen (hslot.read s hbs' ht hrest)

/-- The end of a list is not read in front of an item. -/
theorem yields_closeList_item {first : Bool} {ts t : List Char} {texts : List (List Char)}
    (hrow : Row ']' first ts (t :: texts)) {v : Tree} (ht : Spells t v) (rest rest' : List Char) :
    Yields closeList (ts ++ rest) none rest' := by
  cases hrow with
  | first hbs _ =>
      rw [List.append_assoc, List.append_assoc]
      refine yields_token_of_spells hbs ht fun c hc => ?_
      split
      · exact .here _
      · next h => exact absurd (Option.some.inj h) hc.ne_close
      · next h => exact absurd (Option.some.inj h) hc.ne_comma
      · exact .ahead _
  | next hbs hbs' _ =>
      rw [List.append_assoc, List.cons_append, List.append_assoc, List.append_assoc]
      refine yields_token hbs rfl (yields_eat (yields_token_of_spells hbs' ht fun c _ => ?_))
      split <;> exact .ahead _

/-- `Closes r cs x rest`: `r`, and the end of a list behind it, read `x` from `cs` and leave
`rest`. -/
def Closes (r : Reader α) (cs : List Char) (x : Option α) (rest : List Char) : Prop :=
  ∃ y ds z, Yields r cs y ds ∧ Yields closeList ds z rest ∧ x = z.bind fun _ => y

namespace Closes

theorem andThen {r : Reader α} {f : α → Reader β} {cs ds rest : List Char} {a : α} {y : Option β}
    (hr : Yields r cs (some a) ds) (hf : Closes (f a) ds y rest) : Closes (r >>= f) cs y rest := by
  obtain ⟨x, es, z, hx, hz, rfl⟩ := hf
  exact ⟨x, es, z, hr.andThen hx, hz, rfl⟩

theorem stop {r : Reader α} {f : α → Reader β} {cs rest : List Char} (hr : Yields r cs none rest) :
    Closes (r >>= f) cs none rest :=
  ⟨none, ']' :: rest, some (), hr.of_none.stop, yields_closeList rest, rfl⟩

theorem enclosed {r : Reader α} {f : α → Reader β} {g : α → Option β} {past : Cursor → Cursor}
    {cs rest : List Char} {x : Option α} (h : Closes r cs x rest)
    (hf : ∀ a cs, Yields (f a) cs (g a) cs) :
    Yields (enclosed (r >>= f) closeList past) cs (x.bind g) rest := by
  obtain ⟨y, ds, z, hy, hz, rfl⟩ := h
  have hbody := hy.bind fun a _ => hf a ds
  cases z with
  | none => exact yields_enclosed_none hbody hz
  | some => exact yields_enclosed hbody hz

end Closes

/-- An item in its field, and the items behind it in the others. -/
theorem closes_item {slot : Slot σ} {f : Field V σ} (hslot : Serves value inner slot f)
    {i : List Char × Tree} {vs : List Tree} {cs rest : List Char} {s : σ}
    (hi : Spells i.1 i.2) (hfollows : Follows (cs ++ rest))
    (h : ∀ s, Closes (inOrder inner slots s false) (cs ++ rest) (setItems value fs vs s) rest) :
    Closes (do inOrder inner slots (← slot.read inner s) false) (i.1 ++ (cs ++ rest))
      (setItems value (f :: fs) (i.2 :: vs) s) rest := by
  have hread : Yields (slot.read inner s) (i.1 ++ (cs ++ rest))
      ((value f.kind i.2).map (f.set · s)) (cs ++ rest) :=
    hslot.read s blank_nil hi hfollows
  rw [setItems]
  cases hv : value f.kind i.2 with
  | none =>
      rw [hv] at hread
      exact .stop hread.of_none
  | some a =>
      rw [hv] at hread
      exact .andThen hread (h _)

/-- The fields in their order, up to the end of the list. What is too much is left to the reader
of the end, which does not read it. -/
theorem closes_inOrder (h : List.Forall₂ (Serves value inner) slots fs)
    {is : List (List Char × Tree)} {first : Bool} {ts : List Char} {texts : List (List Char)}
    (hrow : Row ']' first ts texts) (htexts : is.map Prod.fst = texts)
    (hspells : ∀ i ∈ is, Spells i.1 i.2) (rest : List Char) (s : σ) :
    Closes (inOrder inner slots s first) (ts ++ rest) (setItems value fs (is.map Prod.snd) s)
      rest := by
  induction h generalizing is first ts texts s with
  | nil =>
      cases is with
      | nil =>
          obtain rfl := htexts
          cases hrow with
          | nil hbs =>
              -- All fields are read and the list ends.
              refine ⟨some s, _, some (), .pure s _, ?_, rfl⟩
              rw [List.append_assoc]
              exact yields_token hbs rfl fun _ => rfl
      | cons i is =>
          obtain rfl := htexts
          -- All fields are read and one more item is there: the list is not closed.
          have hi := (List.forall_mem_cons.mp hspells).1
          exact ⟨some s, _, none, .pure s _, yields_closeList_item hrow hi rest rest, rfl⟩
  | @cons slot f slots fs hslot _ ih =>
      cases hrow with
      | nil hbs =>
          obtain rfl := List.map_eq_nil_iff.mp htexts
          rw [List.append_assoc]
          -- The list ends early, and the other fields are left as they are.
          exact ⟨some s, _, some (), (yields_hasItem_end first hbs rest).andThen (.pure s _),
            yields_closeList rest, rfl⟩
      | first hbs hrow =>
          obtain ⟨i, is, rfl, rfl, rfl⟩ := List.map_eq_cons_iff.mp htexts
          obtain ⟨hi, hspells⟩ := List.forall_mem_cons.mp hspells
          rw [List.append_assoc, List.append_assoc]
          exact .andThen (yields_hasItem_first hbs (hi.leads.append _))
            (closes_item hslot hi (hrow.follows rfl rest) (ih hrow rfl hspells))
      | next hbs hbs' hrow =>
          obtain ⟨i, is, rfl, rfl, rfl⟩ := List.map_eq_cons_iff.mp htexts
          obtain ⟨hi, hspells⟩ := List.forall_mem_cons.mp hspells
          rw [List.append_assoc, List.cons_append, List.append_assoc, List.append_assoc]
          exact .andThen (yields_hasItem_next hbs hbs' (hi.leads.append _))
            (closes_item hslot hi (hrow.follows rfl rest) (ih hrow rfl hspells))

variable {R : Record V σ α} {finish : σ → Reader α}

/-- A record as a list. -/
theorem yields_record_list (hserves : List.Forall₂ (Serves value inner) slots R.fields)
    (hfinish : ∀ s cs, Yields (finish s) cs (R.finish s) cs) {is : List (List Char × Tree)}
    {ts : List Char} (hrow : Row ']' true ts (is.map Prod.fst))
    (hspells : ∀ i ∈ is, Spells i.1 i.2) (rest : List Char) :
    Yields (inList (inner + 1) fun inner => do finish (← inOrder inner slots R.empty true))
      ('[' :: (ts ++ rest)) (R.read value (.array (is.map Prod.snd))) rest :=
  yields_eat ((closes_inOrder hserves hrow rfl hspells rest R.empty).enclosed hfinish)

/-- A record as an object. -/
theorem yields_record_object (hserves : List.Forall₂ (Serves value inner) slots R.fields)
    (hfinish : ∀ s cs, Yields (finish s) cs (R.finish s) cs) {ms : List Member} {ts : List Char}
    (hrow : Row '\x7d' true ts (ms.map Member.chars)) (hkeyed : ∀ m ∈ ms, m.Keyed)
    (hspells : ∀ m ∈ ms, Spells m.text m.tree) {n : Nat} (hn : ts.length < n)
    (rest : List Char) :
    Yields (inObject (inner + 1) fun inner => do
        finish (← members (member slots inner) R.empty true n))
      ('\x7b' :: (ts ++ rest)) (R.read value (.object (ms.map Member.entry))) rest := by
  have hlength := hrow.length_le
  rw [List.length_map] at hlength
  have hmembers := yields_members (steps_member hserves) hrow rfl hkeyed hspells
    (Nat.lt_of_le_of_lt hlength hn) rest R.empty
  exact yields_eat (yields_enclosed (hmembers.bind fun s _ => hfinish s _)
    (yields_closeObject rest))

/-- **A record** is read from every text of it, as an object or as a list. Which of the two is tried
is told by the first token, as in the grammar. -/
theorem interprets_record {value : Nat → (k : κ) → Tree → Option (V k)}
    (hserves : ∀ inner, List.Forall₂ (Serves (value inner) inner) slots R.fields)
    {ofObject ofList : σ → Reader α} (hobject : ∀ s cs, Yields (ofObject s) cs (R.finish s) cs)
    (hlist : ∀ s cs, Yields (ofList s) cs (R.finish s) cs) (expected : String) (levels : Nat) :
    Interprets (record expected levels slots R.empty ofObject ofList)
      (R.interpret value levels) := by
  intro bs t v rest hbs ht hrest
  refine yields_remaining (yields_token_of_spells hbs ht fun c hc => ?_)
  cases hc with
  | array =>
      -- The token in front tells an array, so no other value could have this text.
      generalize hv : Tree.array _ = v at ht
      cases ht with
      | array hrow hspells =>
          cases levels with
          | zero => exact .ahead _
          | succ inner => exact yields_record_list (hserves inner) hlist hrow hspells rest
      | _ => cases hv
  | object =>
      generalize hv : Tree.object _ = v at ht
      cases ht with
      | @object t ms hrow hkeyed hspells =>
          cases levels with
          | zero => exact .ahead _
          | succ inner =>
              -- The length of the whole text bounds the steps of the loop over members.
              have hn : t.length < (bs ++ ('\x7b' :: t ++ rest)).length := by
                rw [List.length_append, List.length_append, List.length_cons]
                omega
              exact yields_record_object (hserves inner) hobject hrow hkeyed hspells hn rest
      | _ => cases hv
  | number hc =>
      rw [Record.interpret_eq_none]
      · obtain ⟨-, -, -, -, hlist, hopen⟩ := ne_of_begins_number hc
        split
        · next h => exact absurd (Option.some.inj h) hlist
        · next h => exact absurd (Option.some.inj h) hopen
        · exact yields_wrongKind _
      · nofun
      · nofun
  | _ =>
      rw [Record.interpret_eq_none]
      · exact yields_wrongKind _
      · nofun
      · nofun

end Reader

end FacetQuery.Json
