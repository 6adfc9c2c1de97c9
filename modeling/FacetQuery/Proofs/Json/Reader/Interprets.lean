import FacetQuery.Proofs.Json.Reader.Yields

/-!
# Json — Reader — What readers make of a value

A reader of values reads, of any text of a value, what some function makes of the value itself.
Neither the layout of the text nor the spelling of its strings matters to it.

* `Reader.Interprets r f`: of a text of the value `v`, the reader `r` reads `f v`.
* `Reader.interprets_skipValue`: a value of any kind and depth is skipped.
* `Reader.interprets_boolean`, `Reader.interprets_list`, `Reader.interprets_value`, …: the readers
  of typed values, and the functions that they stand for.
-/

namespace FacetQuery.Json

variable {α β σ : Type}

namespace Reader

/-- `Interprets r f`: of a text of a value, in front of what does not go on like a number, `r` reads
what `f` makes of the value. -/
def Interprets (r : Reader α) (f : Tree → Option α) : Prop :=
  ∀ ⦃bs t v rest⦄, Blank bs → Spells t v → Follows rest → Yields r (bs ++ (t ++ rest)) (f v) rest

/-- What is made of a value can be changed afterwards. -/
theorem Interprets.map {r : Reader α} {f : Tree → Option α} (h : Interprets r f) (g : α → β) :
    Interprets (do return g (← r)) fun v => (f v).map g :=
  fun _ _ _ _ hbs ht hrest => (h hbs ht hrest).map g

/-- Only the function counts, and not how it is written. -/
theorem Interprets.congr {r : Reader α} {f g : Tree → Option α} (h : Interprets r f)
    (hfg : ∀ v, g v = f v) : Interprets r g :=
  funext hfg ▸ h

/-- A token at the front stays there, whatever is written behind it. -/
theorem Leads.append {cs : List Char} (h : Leads cs) (ds : List Char) : Leads (cs ++ ds) := by
  obtain ⟨x, xs, rfl, hx⟩ := h
  exact ⟨x, xs ++ ds, rfl, hx⟩

variable {bs t rest : List Char} {v : Tree}

/-- What a reader does with a value depends on what its text begins with, behind any blanks. The
five kinds of beginnings are told apart here once, for all readers. -/
theorem yields_token_of_spells {f : Option Char → Reader α} {x : Option α} {ds : List Char}
    (hbs : Blank bs) (ht : Spells t v)
    (h : ∀ c, Begins c v → Yields (f (some c)) (t ++ rest) x ds) :
    Yields (token >>= f) (bs ++ (t ++ rest)) x ds := by
  obtain ⟨c, cs, rfl, hc⟩ := ht.first
  exact yields_token hbs hc.not_blank (h c hc)

/-- A number begins with none of the characters that other values begin with. -/
theorem ne_of_begins_number {c : Char} (hc : isNumberStart c = true) :
    c ≠ 'n' ∧ c ≠ 't' ∧ c ≠ 'f' ∧ c ≠ '"' ∧ c ≠ '[' ∧ c ≠ '\x7b' :=
  ⟨ne_of_isNumberStart hc rfl, ne_of_isNumberStart hc rfl, ne_of_isNumberStart hc rfl,
    ne_of_isNumberStart hc rfl, ne_of_isNumberStart hc rfl, ne_of_isNumberStart hc rfl⟩

/-! ### Skipping -/

/-- `Skipped t`: the characters `t` are skipped, with any bound from twice their number on. -/
def Skipped (t : List Char) : Prop :=
  ∀ ⦃n bs rest⦄, 2 * t.length ≤ n → Blank bs → Follows rest →
    Yields (skip n) (bs ++ (t ++ rest)) (some ()) rest

/-- The items of a list are skipped one after another. Every item uses up at least one step of the
bound, and twice the length of the text is enough for all of them. -/
theorem yields_skipItems {items : List (List Char × Tree)} {first : Bool} {ts : List Char}
    {texts : List (List Char)} (h : Row ']' first ts texts) (htexts : items.map Prod.fst = texts)
    (hspells : ∀ i ∈ items, Spells i.1 i.2) (hskip : ∀ i ∈ items, Skipped i.1) {n : Nat}
    (hn : 2 * ts.length + 1 ≤ n) (rest : List Char) :
    Yields (skip.skipItems n first) (ts ++ rest) (some ()) rest := by
  induction h generalizing items n with
  | nil hbs =>
      obtain ⟨n, rfl⟩ := Nat.exists_eq_add_one_of_ne_zero (show n ≠ 0 by omega)
      rw [skip.skipItems, List.append_assoc]
      exact yields_token hbs rfl fun _ => rfl
  | @first bs t ts texts hbs hrow ih =>
      obtain ⟨n, rfl⟩ := Nat.exists_eq_add_one_of_ne_zero (show n ≠ 0 by omega)
      obtain ⟨i, items, rfl, rfl, htail⟩ := List.map_eq_cons_iff.mp htexts
      obtain ⟨hi, hspells⟩ := List.forall_mem_cons.mp hspells
      obtain ⟨hskipi, hskip⟩ := List.forall_mem_cons.mp hskip
      rw [List.length_append, List.length_append] at hn
      have hpos := hi.length_pos
      -- The item is skipped with the steps that are left, and so are the items behind it.
      have hitem : Yields (skip n) (i.1 ++ (ts ++ rest)) (some ()) (ts ++ rest) :=
        hskipi (by omega) blank_nil (hrow.follows rfl rest)
      have hrest := ih htail hspells hskip (n := n) (by omega)
      rw [skip.skipItems, List.append_assoc, List.append_assoc]
      refine yields_token_of_spells hbs hi fun c hc => ?_
      have hne : c ≠ ']' := hc.ne_close
      simp only [if_true]
      exact hitem.andThen hrest
  | @next bs bs' t ts texts hbs hbs' hrow ih =>
      obtain ⟨n, rfl⟩ := Nat.exists_eq_add_one_of_ne_zero (show n ≠ 0 by omega)
      obtain ⟨i, items, rfl, rfl, htail⟩ := List.map_eq_cons_iff.mp htexts
      obtain ⟨hi, hspells⟩ := List.forall_mem_cons.mp hspells
      obtain ⟨hskipi, hskip⟩ := List.forall_mem_cons.mp hskip
      rw [List.length_append, List.length_cons, List.length_append, List.length_append] at hn
      have hitem : Yields (skip n) (bs' ++ (i.1 ++ (ts ++ rest))) (some ()) (ts ++ rest) :=
        hskipi (by omega) hbs' (hrow.follows rfl rest)
      have hrest := ih htail hspells hskip (n := n) (by omega)
      rw [skip.skipItems, List.append_assoc, List.cons_append, List.append_assoc,
        List.append_assoc]
      exact yields_token hbs rfl (yields_eat (hitem.andThen hrest))

/-- A member behind the quote of its key, and the members behind it. -/
theorem yields_skipMember {m : Member} (hm : m.Keyed) (hskip : Skipped m.text) {n : Nat}
    (hn : 2 * m.text.length ≤ n) {cs rest : List Char} (hcs : Follows cs)
    (hrest : Yields (skip.skipMembers n false) cs (some ()) rest) :
    Yields (do skipQuotedRest; colon; skip n; skip.skipMembers n false)
      (m.key ++ (m.before ++ ':' :: (m.after ++ (m.text ++ cs)))) (some ()) rest :=
  (yields_skipQuotedRest hm.key _).andThen <| (yields_colon hm.before _).andThen <|
    (hskip hn hm.after hcs).andThen hrest

/-- The members of an object are skipped in the same way, each with its key. -/
theorem yields_skipMembers {ms : List Member} {first : Bool} {ts : List Char}
    {texts : List (List Char)} (h : Row '\x7d' first ts texts)
    (htexts : ms.map Member.chars = texts) (hkeyed : ∀ m ∈ ms, m.Keyed)
    (hskip : ∀ m ∈ ms, Skipped m.text) {n : Nat} (hn : 2 * ts.length + 1 ≤ n) (rest : List Char) :
    Yields (skip.skipMembers n first) (ts ++ rest) (some ()) rest := by
  induction h generalizing ms n with
  | nil hbs =>
      obtain ⟨n, rfl⟩ := Nat.exists_eq_add_one_of_ne_zero (show n ≠ 0 by omega)
      rw [skip.skipMembers, List.append_assoc]
      exact yields_token hbs rfl fun _ => rfl
  | @first bs t ts texts hbs hrow ih =>
      obtain ⟨n, rfl⟩ := Nat.exists_eq_add_one_of_ne_zero (show n ≠ 0 by omega)
      obtain ⟨m, ms, rfl, rfl, htail⟩ := List.map_eq_cons_iff.mp htexts
      obtain ⟨hm, hkeyed⟩ := List.forall_mem_cons.mp hkeyed
      obtain ⟨hskipm, hskip⟩ := List.forall_mem_cons.mp hskip
      have hlength := m.length_text_lt
      rw [List.length_append, List.length_append] at hn
      have hrest := ih htail hkeyed hskip (n := n) (by omega)
      -- A key, a colon and a value, and then the members behind them.
      have hmember := yields_skipMember hm hskipm (by omega) (hrow.follows rfl rest) hrest
      rw [skip.skipMembers, List.append_assoc, List.append_assoc, Member.chars_append]
      exact yields_token hbs rfl (yields_token blank_nil rfl (yields_eat hmember))
  | @next bs bs' t ts texts hbs hbs' hrow ih =>
      obtain ⟨n, rfl⟩ := Nat.exists_eq_add_one_of_ne_zero (show n ≠ 0 by omega)
      obtain ⟨m, ms, rfl, rfl, htail⟩ := List.map_eq_cons_iff.mp htexts
      obtain ⟨hm, hkeyed⟩ := List.forall_mem_cons.mp hkeyed
      obtain ⟨hskipm, hskip⟩ := List.forall_mem_cons.mp hskip
      have hlength := m.length_text_lt
      rw [List.length_append, List.length_cons, List.length_append, List.length_append] at hn
      have hrest := ih htail hkeyed hskip (n := n) (by omega)
      have hmember := yields_skipMember hm hskipm (by omega) (hrow.follows rfl rest) hrest
      rw [skip.skipMembers, List.append_assoc, List.cons_append, List.append_assoc,
        List.append_assoc, Member.chars_append]
      exact yields_token hbs rfl (yields_eat (yields_token hbs' rfl (yields_eat hmember)))

/-- Every text of a value can be skipped. The induction is on how the text spells the value, so that
the parts of a list or an object can be skipped already. -/
theorem skipped_of_spells (h : Spells t v) : Skipped t := by
  induction h with
  | null | yes | no =>
      intro n bs rest hn hbs _
      obtain ⟨n, rfl⟩ := Nat.exists_eq_add_one_of_ne_zero (show n ≠ 0 by simp at hn; omega)
      rw [skip]
      exact yields_token hbs rfl (yields_word _ rest)
  | number hp =>
      intro n bs rest hn hbs hrest
      have hpos := (Spells.number hp).length_pos
      obtain ⟨n, rfl⟩ := Nat.exists_eq_add_one_of_ne_zero (show n ≠ 0 by omega)
      rw [skip]
      refine yields_token_of_spells hbs (.number hp) fun c hc => ?_
      cases hc with
      | number hc =>
          -- A character that begins a number is none that begins another value.
          obtain ⟨hn, ht, hf, hquote, hlist, hobject⟩ := ne_of_begins_number hc
          simp only
          rw [if_pos hc]
          exact yields_skipNumber hp hrest
  | string hs =>
      intro n bs rest hn hbs _
      obtain ⟨n, rfl⟩ := Nat.exists_eq_add_one_of_ne_zero (show n ≠ 0 by simp at hn; omega)
      rw [skip]
      exact yields_token hbs rfl (yields_eat (yields_skipQuotedRest hs rest))
  | array hrow hspells ih =>
      intro n bs rest hn hbs _
      rw [List.length_cons] at hn
      obtain ⟨n, rfl⟩ := Nat.exists_eq_add_one_of_ne_zero (show n ≠ 0 by omega)
      -- One step for the bracket, and two for each item: the bound leaves room for them.
      rw [skip]
      exact yields_token hbs rfl (yields_eat (yields_skipItems hrow rfl hspells ih (by omega) rest))
  | object hrow hkeyed hspells ih =>
      intro n bs rest hn hbs _
      rw [List.length_cons] at hn
      obtain ⟨n, rfl⟩ := Nat.exists_eq_add_one_of_ne_zero (show n ≠ 0 by omega)
      rw [skip]
      refine yields_token hbs rfl (yields_eat ?_)
      exact yields_skipMembers hrow rfl hkeyed ih (by omega) rest

/-- **A value of any kind and depth** is skipped. Nothing limits its levels; the length of the text
bounds the steps that are taken. -/
theorem interprets_skipValue : Interprets skipValue fun _ => some () := by
  intro bs t v rest hbs ht hrest
  refine yields_remaining (skipped_of_spells ht ?_ hbs hrest)
  simp only [List.length_append]
  omega

/-! ### Booleans, numbers and strings -/

end Reader

namespace Tree

/-- `asBool? v` is the boolean that `v` is. -/
def asBool? : Tree → Option Bool
  | .bool b => some b
  | _       => none

/-- `asCount? v` is the whole number from zero to `2^64 - 1` that `v` is. -/
def asCount? : Tree → Option UInt64
  | .number p => p.number?.bind Number.toUInt64?
  | _         => none

/-- `asPositive? v` is the same from one on. -/
def asPositive? (v : Tree) : Option UInt64 :=
  v.asCount?.filter (· ≠ 0)

/-- `asString? v` is the string that `v` is. -/
def asString? : Tree → Option String
  | .string s => s
  | _         => none

end Tree

namespace Reader

/-- **A boolean** is read where `true` or `false` stands, and refused where any other value does.
The first character is enough to tell. -/
theorem interprets_boolean : Interprets boolean Tree.asBool? := by
  intro bs t v rest hbs ht hrest
  refine yields_token_of_spells hbs ht fun c hc => ?_
  cases hc with
  | yes =>
      cases ht
      exact (yields_word _ rest).andThen (.pure true rest)
  | no =>
      cases ht
      exact (yields_word _ rest).andThen (.pure false rest)
  | number hc =>
      obtain ⟨-, hyes, hno, -⟩ := ne_of_begins_number hc
      split
      · next h => exact absurd (Option.some.inj h) hyes
      · next h => exact absurd (Option.some.inj h) hno
      · exact yields_wrongKind _
  | _ => exact yields_wrongKind _

/-- A count is a whole number that is not negative and fits in 64 bits. It must be written without a
point and without an exponent, whatever its value. -/
theorem interprets_count : Interprets count Tree.asCount? := by
  intro bs t v rest hbs ht hrest
  refine yields_token_of_spells hbs ht fun c hc => ?_
  cases hc with
  | number hc =>
      cases ht with
      | number hp =>
          simp only
          rw [if_pos hc]
          refine (yields_number hp hrest).bind fun n _ => ?_
          cases n with
          | whole i =>
              simp only [Number.toUInt64?]
              cases i.toUInt64? with
              | some m => exact .pure m rest
              | none => exact .here _
          | real _ _ => exact .here _
  | _ => exact yields_wrongKind _

/-- A positive number is a count that is not zero. Zero is refused behind the number, where the
others would be done. -/
theorem interprets_positive : Interprets positive Tree.asPositive? := by
  intro bs t v rest hbs ht hrest
  have h : v.asPositive? = v.asCount?.bind fun n => if n = 0 then none else some n := by
    rw [Tree.asPositive?]
    cases v.asCount? with
    | none => rfl
    | some n => by_cases hn : n = 0 <;> simp [hn]
  rw [h]
  refine (interprets_count hbs ht hrest).bind fun n _ => ?_
  split
  · exact .unfit _
  · exact .pure n rest

/-- A string is read if it is a row of characters, and refused if there is half a surrogate pair in
it. -/
theorem interprets_string (expected : String) : Interprets (string expected) Tree.asString? := by
  intro bs t v rest hbs ht hrest
  refine yields_token_of_spells hbs ht fun c hc => ?_
  cases hc with
  | string =>
      cases ht with
      | string hs => exact yields_eat (yields_quotedRest hs rest)
  | number hc =>
      obtain ⟨-, -, -, hquote, -⟩ := ne_of_begins_number hc
      split
      · next h => exact absurd (Option.some.inj h) hquote
      · exact yields_wrongKind _
  | _ => exact yields_wrongKind _

/-! ### Lists -/

end Reader

/-- `asList? levels f v` are the items of the list that `v` is, by what `f` makes of them. -/
def Tree.asList? (levels : Nat) (f : Nat → Tree → Option α) : Tree → Option (List α)
  | .array vs =>
      match levels with
      | 0 => none
      | inner + 1 => vs.mapM (f inner)
  | _ => none

namespace Reader

/-- The items of a row, each read by the same reader. If one of them is refused, so is the list, and
what is behind it is not looked at. -/
theorem yields_items {r : Reader α} {f : Tree → Option α} (hr : Interprets r f)
    {is : List (List Char × Tree)} {first : Bool} {ts : List Char} {texts : List (List Char)}
    (h : Row ']' first ts texts) (htexts : is.map Prod.fst = texts)
    (hspells : ∀ i ∈ is, Spells i.1 i.2) {n : Nat} (hn : is.length < n) (rest : List Char) :
    Yields (items r first n) (ts ++ rest) ((is.map Prod.snd).mapM f) (']' :: rest) := by
  induction h generalizing is n with
  | @nil first bs hbs =>
      obtain ⟨n, rfl⟩ := Nat.exists_eq_add_one_of_ne_zero (Nat.ne_zero_of_lt hn)
      obtain rfl := List.map_eq_nil_iff.mp htexts
      -- No item is left, so the bracket comes next.
      rw [items, List.append_assoc]
      exact (yields_hasItem_end first hbs rest).andThen (.pure [] _)
  | @first bs t ts texts hbs hrow ih =>
      obtain ⟨n, rfl⟩ := Nat.exists_eq_add_one_of_ne_zero (Nat.ne_zero_of_lt hn)
      obtain ⟨i, is, rfl, rfl, htail⟩ := List.map_eq_cons_iff.mp htexts
      obtain ⟨hi, hspells⟩ := List.forall_mem_cons.mp hspells
      have hrest := ih htail hspells (Nat.lt_of_succ_lt_succ hn)
      have hitem := hr blank_nil hi (hrow.follows rfl rest)
      rw [items, List.append_assoc, List.append_assoc, List.map_cons, List.mapM_cons]
      exact (yields_hasItem_first hbs (hi.leads.append _)).andThen
        (hitem.bind fun a _ => hrest.bind fun as _ => .pure (a :: as) _)
  | @next bs bs' t ts texts hbs hbs' hrow ih =>
      obtain ⟨n, rfl⟩ := Nat.exists_eq_add_one_of_ne_zero (Nat.ne_zero_of_lt hn)
      obtain ⟨i, is, rfl, rfl, htail⟩ := List.map_eq_cons_iff.mp htexts
      obtain ⟨hi, hspells⟩ := List.forall_mem_cons.mp hspells
      have hrest := ih htail hspells (Nat.lt_of_succ_lt_succ hn)
      have hitem := hr blank_nil hi (hrow.follows rfl rest)
      rw [items, List.append_assoc, List.cons_append, List.append_assoc, List.append_assoc,
        List.map_cons, List.mapM_cons]
      exact (yields_hasItem_next hbs hbs' (hi.leads.append _)).andThen
        (hitem.bind fun a _ => hrest.bind fun as _ => .pure (a :: as) _)

/-- A list between its brackets, if there is a level left for it. Without one it is refused before
its first item. -/
theorem yields_listOf {item : Nat → Reader α} {f : Nat → Tree → Option α}
    (hitem : ∀ n, Interprets (item n) (f n)) (levels : Nat) {is : List (List Char × Tree)}
    {ts : List Char} (hrow : Row ']' true ts (is.map Prod.fst))
    (hspells : ∀ i ∈ is, Spells i.1 i.2) (rest : List Char) :
    Yields (listOf levels item) ('[' :: (ts ++ rest))
      (Tree.asList? levels f (.array (is.map Prod.snd))) rest := by
  refine yields_remaining ?_
  cases levels with
  | zero => exact .ahead _
  | succ inner =>
      have hlength := hrow.length_le
      rw [List.length_map] at hlength
      have hn : is.length < ('[' :: (ts ++ rest)).length := by
        rw [List.length_cons, List.length_append]
        omega
      exact yields_eat (yields_enclosed (yields_items (hitem inner) hrow rfl hspells hn rest)
        (yields_closeList rest))

/-- **A list** is read if each of its items is, and if it is nested no deeper than the levels left.
-/
theorem interprets_list {item : Nat → Reader α} {f : Nat → Tree → Option α}
    (hitem : ∀ n, Interprets (item n) (f n)) (levels : Nat) :
    Interprets (list levels item) (Tree.asList? levels f) := by
  intro bs t v rest hbs ht hrest
  refine yields_token_of_spells hbs ht fun c hc => ?_
  cases hc with
  | array =>
      generalize hv : Tree.array _ = v at ht
      cases ht with
      | array hrow hspells =>
          cases hv
          exact yields_listOf hitem levels hrow hspells rest
      | _ => cases hv
  | number hc =>
      obtain ⟨-, -, -, -, hlist, -⟩ := ne_of_begins_number hc
      split
      · next h => exact absurd (Option.some.inj h) hlist
      · exact yields_wrongKind _
  | _ => exact yields_wrongKind _

/-! ### Objects -/

end Reader

/-- `foldMembers step ms s` takes the state `s` on from member to member, by what `step` makes of
the key and of the value. A key that is no row of characters is none. -/
def Tree.foldMembers (step : String → Tree → σ → Option σ) :
    List (Option String × Tree) → σ → Option σ
  | [], s              => some s
  | (none, _) :: _, _  => none
  | (some k, v) :: ms, s => (step k v s).bind (foldMembers step ms)

/-- `asObject? levels step s v` is the state to which the members of the object that `v` is take the
state `s`. -/
def Tree.asObject? (levels : Nat) (step : Nat → String → Tree → σ → Option σ) (s : σ) :
    Tree → Option σ
  | .object ms =>
      match levels with
      | 0 => none
      | inner + 1 => foldMembers (step inner) ms s
  | _ => none

namespace Reader

/-- `Steps member step`: behind the key `k`, the reader `member` makes of a text of a value what
`step` makes of the value. -/
def Steps (member : String → σ → Reader σ) (step : String → Tree → σ → Option σ) : Prop :=
  ∀ ⦃k s bs bs' t v rest⦄, Blank bs → Blank bs' → Spells t v → Follows rest →
    Yields (member k s) (bs ++ ':' :: (bs' ++ (t ++ rest))) (step k v s) rest

/-- A member may be read behind its colon and put into the state under its key. -/
theorem Interprets.steps {r : Reader α} {f : Tree → Option α} (hr : Interprets r f)
    (g : String → α → σ → σ) :
    Steps (fun k s => do colon; return g k (← r) s) fun k v s => (f v).map (g k · s) :=
  fun k s _ _ _ _ _ hbs hbs' ht hrest =>
    (yields_colon hbs _).andThen ((hr hbs' ht hrest).map (g k · s))

/-- One member and the members behind it: the key, the colon, the value, and then what the rest
makes of the new state. -/
theorem yields_member {member : String → σ → Reader σ} {step : String → Tree → σ → Option σ}
    (hmember : Steps member step) {m : Member} (hm : m.Keyed) (ht : Spells m.text m.tree) {n : Nat}
    {cs rest : List Char} {ms : List (Option String × Tree)} (hcs : Follows cs)
    (hrest : ∀ s, Yields (members member s false n) cs (Tree.foldMembers step ms s) rest) (s : σ) :
    Yields (do let k ← key; let s ← member k s; members member s false n) (m.chars ++ cs)
      (Tree.foldMembers step (m.entry :: ms) s) rest := by
  rw [Member.chars_append]
  have hkey := yields_key hm.key (m.before ++ ':' :: (m.after ++ (m.text ++ cs)))
  rw [Member.entry]
  cases hname : m.name with
  | none =>
      rw [hname] at hkey
      exact hkey.of_none.stop
  | some k =>
      rw [hname] at hkey
      exact hkey.andThen ((hmember hm.before hm.after ht hcs).bind fun s _ => hrest s)

/-- The members of a row take the state on one after another, as `foldMembers` does with their
values. -/
theorem yields_members {member : String → σ → Reader σ} {step : String → Tree → σ → Option σ}
    (hmember : Steps member step) {ms : List Member} {first : Bool} {ts : List Char}
    {texts : List (List Char)} (h : Row '\x7d' first ts texts)
    (htexts : ms.map Member.chars = texts) (hkeyed : ∀ m ∈ ms, m.Keyed)
    (hspells : ∀ m ∈ ms, Spells m.text m.tree) {n : Nat} (hn : ms.length < n) (rest : List Char)
    (s : σ) :
    Yields (members member s first n) (ts ++ rest) (Tree.foldMembers step (ms.map Member.entry) s)
      ('\x7d' :: rest) := by
  induction h generalizing ms n s with
  | @nil first bs hbs =>
      obtain ⟨n, rfl⟩ := Nat.exists_eq_add_one_of_ne_zero (Nat.ne_zero_of_lt hn)
      obtain rfl := List.map_eq_nil_iff.mp htexts
      -- No member is left, so the brace comes next.
      rw [members, List.append_assoc]
      exact (yields_hasMember_end first hbs rest).andThen (.pure s _)
  | @first bs t ts texts hbs hrow ih =>
      obtain ⟨n, rfl⟩ := Nat.exists_eq_add_one_of_ne_zero (Nat.ne_zero_of_lt hn)
      obtain ⟨m, ms, rfl, rfl, htail⟩ := List.map_eq_cons_iff.mp htexts
      obtain ⟨hm, hkeyed⟩ := List.forall_mem_cons.mp hkeyed
      obtain ⟨ht, hspells⟩ := List.forall_mem_cons.mp hspells
      -- The members behind this one, from whatever it has made of the state.
      have hrest := ih htail hkeyed hspells (Nat.lt_of_succ_lt_succ hn)
      rw [members, List.append_assoc, List.append_assoc]
      exact (yields_hasMember_first hbs _).andThen
        (yields_member hmember hm ht (hrow.follows rfl rest) hrest s)
  | @next bs bs' t ts texts hbs hbs' hrow ih =>
      obtain ⟨n, rfl⟩ := Nat.exists_eq_add_one_of_ne_zero (Nat.ne_zero_of_lt hn)
      obtain ⟨m, ms, rfl, rfl, htail⟩ := List.map_eq_cons_iff.mp htexts
      obtain ⟨hm, hkeyed⟩ := List.forall_mem_cons.mp hkeyed
      obtain ⟨ht, hspells⟩ := List.forall_mem_cons.mp hspells
      have hrest := ih htail hkeyed hspells (Nat.lt_of_succ_lt_succ hn)
      rw [members, List.append_assoc, List.cons_append, List.append_assoc, List.append_assoc]
      exact (yields_hasMember_next hbs hbs' _).andThen
        (yields_member hmember hm ht (hrow.follows rfl rest) hrest s)

/-- An object behind its opening bracket. -/
theorem yields_objectRest {member : String → σ → Reader σ} {step : String → Tree → σ → Option σ}
    (hmember : Steps member step) {ms : List Member} {ts : List Char}
    (hrow : Row '\x7d' true ts (ms.map Member.chars)) (hkeyed : ∀ m ∈ ms, m.Keyed)
    (hspells : ∀ m ∈ ms, Spells m.text m.tree) {n : Nat} (hn : ts.length < n) (rest : List Char)
    (s : σ) :
    Yields (enclosed (members member s true n) closeObject Cursor.pastObjectEnd) (ts ++ rest)
      (Tree.foldMembers step (ms.map Member.entry) s) rest := by
  have hlength := hrow.length_le
  rw [List.length_map] at hlength
  exact yields_enclosed
    (yields_members hmember hrow rfl hkeyed hspells (by omega) rest s) (yields_closeObject rest)

/-- An object between its brackets, if there is a level left for it. Members are read in the order
in which they stand, whatever it is. -/
theorem yields_objectOf {member : Nat → String → σ → Reader σ}
    {step : Nat → String → Tree → σ → Option σ} (hmember : ∀ n, Steps (member n) (step n))
    (levels : Nat) {ms : List Member} {ts : List Char}
    (hrow : Row '\x7d' true ts (ms.map Member.chars)) (hkeyed : ∀ m ∈ ms, m.Keyed)
    (hspells : ∀ m ∈ ms, Spells m.text m.tree) (rest : List Char) (s : σ) :
    Yields (objectOf levels member s) ('\x7b' :: (ts ++ rest))
      (Tree.asObject? levels step s (.object (ms.map Member.entry))) rest := by
  refine yields_remaining ?_
  cases levels with
  | zero => exact .ahead _
  | succ inner =>
      have hn : ts.length < ('\x7b' :: (ts ++ rest)).length := by
        rw [List.length_cons, List.length_append]
        omega
      exact yields_eat (yields_objectRest (hmember inner) hrow hkeyed hspells hn rest s)

end Reader

/-! ### Any value -/

namespace Tree

/-- `asValue? levels v` is the value that `v` stands for, if it is nested no deeper than `levels`.
A key that comes again overwrites its value. -/
def asValue? : Nat → Tree → Option Value
  | _, .null              => some .null
  | _, .bool b            => some (.bool b)
  | _, .number p          => p.number?.map .number
  | _, .string s          => s.map .string
  | 0, .array _           => none
  | 0, .object _          => none
  | inner + 1, .array vs  => (vs.mapM (asValue? inner)).map .array
  | inner + 1, .object ms =>
      (foldMembers (fun k v d => (asValue? inner v).map (Dictionary.put k · d)) ms []).map .object

/-- `asMap? levels v` are the members of the object that `v` is, each with its value. -/
def asMap? (levels : Nat) (v : Tree) : Option (Dictionary Value) :=
  v.asObject? levels (fun inner k v d => (asValue? inner v).map (Dictionary.put k · d)) []

end Tree

namespace Reader

/-- A value that is neither a list nor an object is told by its first character, and what is read
behind it is a word, a string or a number. -/
theorem yields_scalar {t rest : List Char} {v : Tree} (ht : Spells t v) (hrest : Follows rest)
    (harray : ∀ vs, v ≠ .array vs) (hobject : ∀ ms, v ≠ .object ms) (levels : Nat) :
    Yields scalar (t ++ rest) (v.asValue? levels) rest := by
  refine yields_token_of_spells blank_nil ht fun c hc => ?_
  cases hc with
  | null =>
      cases ht
      rw [Tree.asValue?]
      exact (yields_word _ rest).andThen (.pure _ rest)
  | yes =>
      cases ht
      rw [Tree.asValue?]
      exact (yields_word _ rest).andThen (.pure _ rest)
  | no =>
      cases ht
      rw [Tree.asValue?]
      exact (yields_word _ rest).andThen (.pure _ rest)
  | number hc =>
      cases ht with
      | number hp =>
          -- A character that begins a number is none of those that are looked at before.
          obtain ⟨hn, ht, hf, hquote, -⟩ := ne_of_begins_number hc
          rw [Tree.asValue?]
          simp only
          rw [if_pos hc]
          exact (yields_number hp hrest).map Value.number
  | string =>
      cases ht with
      | string hs =>
          rw [Tree.asValue?]
          exact yields_eat ((yields_quotedRest hs rest).map Value.string)
  | array => exact absurd rfl (harray _)
  | object => exact absurd rfl (hobject _)

/-- Such a value is kept at any depth. -/
theorem yields_value_scalar {bs t rest : List Char} {v : Tree} (hbs : Blank bs) (ht : Spells t v)
    (hrest : Follows rest) (harray : ∀ vs, v ≠ .array vs) (hobject : ∀ ms, v ≠ .object ms)
    (levels : Nat) : Yields (value levels) (bs ++ (t ++ rest)) (v.asValue? levels) rest := by
  have hscalar := yields_scalar ht hrest harray hobject levels
  unfold value
  refine yields_token_of_spells hbs ht fun c hc => ?_
  cases hc with
  | number hc =>
      obtain ⟨-, -, -, -, hlist, hopen⟩ := ne_of_begins_number hc
      split
      · next h => exact absurd (Option.some.inj h) hlist
      · next h => exact absurd (Option.some.inj h) hopen
      · exact hscalar
  | array => exact absurd rfl (harray _)
  | object => exact absurd rfl (hobject _)
  | _ => exact hscalar

/-- **A value that is kept** is read, if it is nested no deeper than the levels left. The induction
is on these levels, and each list or object takes one. -/
theorem interprets_value (levels : Nat) : Interprets (value levels) (Tree.asValue? levels) := by
  induction levels with
  | zero =>
      intro bs t v rest hbs ht hrest
      cases v with
      | array | object =>
          rw [value]
          -- No level is left for an array or an object.
          exact yields_token_of_spells hbs ht fun c hc => by cases hc; exact .ahead _
      | _ => exact yields_value_scalar hbs ht hrest nofun nofun _
  | succ inner ih =>
      intro bs t v rest hbs ht hrest
      cases v with
      | array =>
          -- The items are one level further in, where the induction speaks of them.
          generalize hv : Tree.array _ = v at ht
          cases ht with
          | array hrow hspells =>
              rw [value, Tree.asValue?]
              refine yields_token hbs rfl ?_
              exact (yields_listOf (fun _ => ih) (inner + 1) hrow hspells rest).map Value.array
          | _ => cases hv
      | object =>
          generalize hv : Tree.object _ = v at ht
          cases ht with
          | object hrow hkeyed hspells =>
              rw [value, Tree.asValue?]
              refine yields_token hbs rfl ?_
              exact (yields_objectOf (fun _ => ih.steps Dictionary.put) (inner + 1) hrow hkeyed
                hspells rest []).map Value.object
          | _ => cases hv
      | _ => exact yields_value_scalar hbs ht hrest nofun nofun _

/-- **The members of an object** are kept in the same way, a later one under the same key in place
of an earlier one. -/
theorem interprets_map (levels : Nat) : Interprets (map levels) (Tree.asMap? levels) := by
  intro bs t v rest hbs ht hrest
  refine yields_token_of_spells hbs ht fun c hc => ?_
  cases hc with
  | object =>
      generalize hv : Tree.object _ = v at ht
      cases ht with
      | object hrow hkeyed hspells =>
          exact yields_objectOf (fun inner => (interprets_value inner).steps Dictionary.put) levels
            hrow hkeyed hspells rest []
      | _ => cases hv
  | number hc =>
      obtain ⟨-, -, -, -, -, hobject⟩ := ne_of_begins_number hc
      split
      · next h => exact absurd (Option.some.inj h) hobject
      · exact yields_wrongKind _
  | _ => exact yields_wrongKind _

/-! ### Names -/

end Reader

namespace Tree

/-- `soleName? ms` is the key of the only member in `ms`, if `null` is under it. -/
def soleName? : List (Option String × Tree) → Option String
  | [(k, .null)] => k
  | _            => none

/-- `asChoice? levels ofName? v` is what the name `v` stands for: a string, or the only key of an
object. -/
def asChoice? (levels : Nat) (ofName? : String → Option α) : Tree → Option α
  | .string s  => s.bind ofName?
  | .object ms =>
      match levels with
      | 0 => none
      | _ + 1 => (soleName? ms).bind ofName?
  | _ => none

end Tree

namespace Reader

/-- A name stands for what it is the name of, and other names for nothing. -/
theorem yields_variant (ofName? : String → Option α) (expected name : String) (cs : List Char) :
    Yields (variant ofName? expected name) cs (ofName? name) cs := by
  unfold variant
  cases ofName? name with
  | some a => exact .pure a cs
  | none => exact .here _

/-- A name behind the quote before it. -/
theorem yields_name {t : List Char} {s : Option String} (hs : SpellsString t s)
    (ofName? : String → Option α) (expected : String) (rest : List Char) :
    Yields (do variant ofName? expected (← key)) ('"' :: (t ++ rest)) (s.bind ofName?) rest :=
  (yields_key hs rest).bind fun name _ => yields_variant ofName? expected name rest

/-- The end of a choice that is written as an object. -/
def choiceEnd (a : α) : Reader α := do
  match ← token with
  | some '\x7d' => do eat; pure a
  | some _ => here .expectedValue
  | none => here .endInObject

/-- An object that is a choice has one member, and no more behind it. -/
theorem yields_choiceEnd {ms : List Member} {ts : List Char}
    (hrow : Row '\x7d' false ts (ms.map Member.chars)) (rest : List Char) (a : α) :
    Yields (choiceEnd a) (ts ++ rest) (if ms = [] then some a else none) rest := by
  generalize htexts : ms.map Member.chars = texts at hrow
  cases hrow with
  | nil hbs =>
      obtain rfl := List.map_eq_nil_iff.mp htexts
      rw [List.append_assoc, if_pos rfl]
      exact yields_token hbs rfl (yields_eat (.pure a rest))
  | next hbs _ _ =>
      obtain ⟨m, ms, rfl, -⟩ := List.map_eq_cons_iff.mp htexts
      rw [List.append_assoc, if_neg (List.cons_ne_nil m ms)]
      exact yields_token hbs rfl (.here _)

/-- What a choice that is written as an object goes on with behind the name. -/
def choiceRest (a : α) : Reader α := do
  colon
  match ← token with
  | some 'n' => word ['n', 'u', 'l', 'l']
  | _ => wrongKind "unit"
  choiceEnd a

/-- Under the only key stands `null`, and then the object ends. -/
theorem yields_choiceRest_null {m : Member} (hm : m.Keyed) (ht : Spells m.text .null)
    {cs rest : List Char} {a : α} {x : Option α} (h : Yields (choiceEnd a) cs x rest) :
    Yields (choiceRest a) (m.before ++ ':' :: (m.after ++ (m.text ++ cs))) x rest := by
  refine (yields_colon hm.before _).andThen ?_
  generalize m.text = t at ht
  cases ht with
  | null => exact yields_token hm.after rfl ((yields_word _ cs).andThen h)

/-- Any other value under the key is refused. -/
theorem yields_choiceRest_none {m : Member} (hm : m.Keyed) (ht : Spells m.text m.tree)
    (hne : m.tree ≠ .null) (cs rest : List Char) (a : α) :
    Yields (choiceRest a) (m.before ++ ':' :: (m.after ++ (m.text ++ cs))) none rest := by
  refine (yields_colon hm.before _).andThen (yields_token_of_spells hm.after ht fun c hc => ?_)
  generalize m.tree = v at hne hc
  cases hc with
  | null => exact absurd rfl hne
  | number hc =>
      obtain ⟨hn, -⟩ := ne_of_begins_number hc
      split
      · next h => exact absurd (Option.some.inj h) hn
      · exact (yields_wrongKind _).stop
  | _ => exact (yields_wrongKind _).stop

/-- An object is read as a choice if the only key in it is one of the names, and `null` stands under
it. -/
theorem yields_choiceObject {ofName? : String → Option α} {expected : String} {ms : List Member}
    {t : List Char} (hrow : Row '\x7d' true t (ms.map Member.chars)) (hkeyed : ∀ m ∈ ms, m.Keyed)
    (hspells : ∀ m ∈ ms, Spells m.text m.tree) (rest : List Char) :
    Yields (do choiceRest (← variant ofName? expected (← firstKey))) (t ++ rest)
      ((Tree.soleName? (ms.map Member.entry)).bind ofName?) rest := by
  generalize htexts : ms.map Member.chars = texts at hrow
  cases hrow with
  | nil hbs =>
      obtain rfl := List.map_eq_nil_iff.mp htexts
      rw [List.append_assoc]
      exact Yields.stop (yields_token hbs rfl (.ahead _))
  | @first bs t ts texts hbs hrow =>
      obtain ⟨m, ms, rfl, rfl, rfl⟩ := List.map_eq_cons_iff.mp htexts
      obtain ⟨hm, -⟩ := List.forall_mem_cons.mp hkeyed
      obtain ⟨ht, -⟩ := List.forall_mem_cons.mp hspells
      have hkey : Yields firstKey (bs ++ (m.chars ++ (ts ++ rest))) m.name
          (m.before ++ ':' :: (m.after ++ (m.text ++ (ts ++ rest)))) := by
        rw [Member.chars_append]
        exact yields_token hbs rfl (yields_key hm.key _)
      -- Whether the name is known or not, nothing is read if nothing is read behind it.
      have hnone (hrest : ∀ a : α, Yields (choiceRest a)
          (m.before ++ ':' :: (m.after ++ (m.text ++ (ts ++ rest)))) none rest) :
          Yields (do choiceRest (← variant ofName? expected (← firstKey)))
            (bs ++ (m.chars ++ (ts ++ rest))) none rest := by
        have h := hkey.bind fun k _ => (yields_variant ofName? expected k _).bind fun a _ => hrest a
        simpa only [Option.bind_fun_none] using h
      rw [List.append_assoc, List.append_assoc, List.map_cons, Member.entry]
      cases htree : m.tree with
      | null =>
          rw [htree] at ht
          -- Under the name stands `null`, so it is left to see whether the object ends there.
          have hend (a : α) := yields_choiceRest_null hm ht (yields_choiceEnd hrow rest a)
          cases ms with
          | nil =>
              have h := hkey.bind fun k _ =>
                (yields_variant ofName? expected k _).bind fun a _ => hend a
              simpa [Tree.soleName?] using h
          | cons m' ms => exact hnone hend
      | _ => exact hnone fun a => yields_choiceRest_none hm ht (by rw [htree]; nofun) _ rest a

/-- **A choice** is read from a string, or from an object with one member as above. Any other value
is refused at its first character. -/
theorem interprets_choice (ofName? : String → Option α) (expected : String) (levels : Nat) :
    Interprets (choice levels ofName? expected) (Tree.asChoice? levels ofName?) := by
  intro bs t v rest hbs ht hrest
  refine yields_token_of_spells hbs ht fun c hc => ?_
  cases hc with
  | string =>
      cases ht with
      | string hs => exact yields_name hs ofName? expected rest
  | object =>
      generalize hv : Tree.object _ = v at ht
      cases ht with
      | @object t ms hrow hkeyed hspells =>
          cases levels with
          | zero => exact .ahead _
          | succ inner => exact yields_eat (yields_choiceObject hrow hkeyed hspells rest)
      | _ => cases hv
  | number hc =>
      -- A number is neither of the two that are tried, whatever it begins with.
      obtain ⟨-, -, -, hquote, -, hopen⟩ := ne_of_begins_number hc
      split
      · next h => exact absurd (Option.some.inj h) hquote
      · next h => exact absurd (Option.some.inj h) hopen
      · exact .ahead _
      · exact .here _
  | _ => exact .ahead _

/-! ### Whole texts -/

/-- **A whole text** is read as what its value is interpreted as, and refused if that is nothing.
Blanks behind the value do not matter. -/
theorem Interprets.run_eq_ok_iff {r : Reader α} {f : Tree → Option α} (h : Interprets r f)
    {text : String} {v : Tree} (hv : Writes text v) {a : α} :
    r.run text = .ok a ↔ f v = some a := by
  obtain ⟨bs, t, as, htext, hbs, has, ht⟩ := hv
  have hfollows : Follows (as ++ []) := follows_of_blank has nofun
  rw [List.append_nil] at hfollows
  have hr : (r (.ofText text)).outcome = (f v).map (·, as) := by
    rw [Cursor.ofText, htext]
    exact h hbs ht hfollows _
  have hend : Yields atEnd as (some ()) [] := yields_token_nil has (.pure () [])
  rw [Reader.run_eq_ok_iff]
  constructor
  · rintro ⟨c, c', hdone, -⟩
    rw [hdone, Step.outcome] at hr
    obtain ⟨b, hb, hpair⟩ := Option.map_eq_some_iff.mp hr.symm
    rw [hb, (Prod.mk.inj hpair).1]
  · intro hf
    rw [hf, Option.map_some, outcome_eq_some_iff] at hr
    obtain ⟨p, hdone⟩ := hr
    obtain ⟨p', hend⟩ := outcome_eq_some_iff.mp (hend p)
    exact ⟨_, _, hdone, hend⟩

end Reader

end FacetQuery.Json
