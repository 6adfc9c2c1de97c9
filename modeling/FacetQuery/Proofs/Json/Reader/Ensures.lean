import FacetQuery.Json.Reader.Typed
import FacetQuery.Proofs.Dictionary
import FacetQuery.Proofs.Json.Reader.Steps
import FacetQuery.Proofs.WellFormed

/-!
# Json — Reader — What is read

Whatever text a reader is given, what it ends with has a property.

* `Reader.Ensures`: that property of a reader, closed under `bind`, lists and objects.
* `Value.Fits`: how deep lists and objects are nested in a value.
* `Reader.ensures_value`, `Reader.ensures_map`: no key comes twice in what is read, and it is nested
  no deeper than the levels given.
* `Reader.ensures_record`: an invariant of the fields of a record.
-/

namespace FacetQuery.Json

/-- `Fits levels v`: lists and objects are nested at most `levels` deep in `v`. -/
inductive Value.Fits : Nat → Value → Prop
  | null (levels : Nat) : Fits levels .null
  | bool (levels : Nat) (b : Bool) : Fits levels (.bool b)
  | number (levels : Nat) (n : Number) : Fits levels (.number n)
  | string (levels : Nat) (s : String) : Fits levels (.string s)
  | array {inner : Nat} {items : List Value} :
      (∀ v ∈ items, Fits inner v) → Fits (inner + 1) (.array items)
  | object {inner : Nat} {members : List (String × Value)} :
      (∀ m ∈ members, Fits inner m.2) → Fits (inner + 1) (.object members)

namespace Reader

variable {α β σ : Type} {levels inner : Nat}

/-- `Ensures r P`: whatever `r` reads has the property `P`. -/
def Ensures (r : Reader α) (P : α → Prop) : Prop :=
  ∀ ⦃c a c'⦄, r c = .done a c' → P a

namespace Ensures

theorem pure {P : α → Prop} {a : α} (h : P a) : Ensures (pure a) P := by
  intro c b c' hb
  cases hb
  exact h

/-- **What is read first** may be used for what comes behind it. Nothing is said of readers that
fail, and so nothing is asked of the first one then. -/
theorem bind {r : Reader α} {f : α → Reader β} {P : α → Prop} {Q : β → Prop} (hr : Ensures r P)
    (hf : ∀ a, P a → Ensures (f a) Q) : Ensures (r >>= f) Q := by
  intro c b c' h
  obtain ⟨a, c₁, ha, hb⟩ := bind_eq_done_iff.mp h
  exact hf a (hr ha) hb

/-- What comes before does not matter. -/
theorem after {r : Reader α} {f : α → Reader β} {Q : β → Prop} (hf : ∀ a, Ensures (f a) Q) :
    Ensures (r >>= f) Q :=
  bind (P := fun _ => True) (fun _ _ _ _ => trivial) fun a _ => hf a

theorem here (f : Fault) (P : α → Prop) : Ensures (here f) P := nofun

theorem ahead (f : Fault) (P : α → Prop) : Ensures (ahead f) P := nofun

theorem unfit (f : Fault) (P : α → Prop) : Ensures (unfit f) P := nofun

/-- Brackets change nothing of what is read between them. -/
theorem enclosed {body : Reader α} {P : α → Prop} (h : Ensures body P) (close : Reader Unit)
    (past : Cursor → Cursor) : Ensures (enclosed body close past) P := by
  intro c a c' ha
  obtain ⟨c₁, ha, -⟩ := enclosed_eq_done_iff.mp ha
  exact h ha

end Ensures

/-- Nothing is read where something else was asked for. -/
theorem ensures_wrongKind (expected : String) (P : α → Prop) : Ensures (wrongKind expected) P := by
  refine .after fun x => ?_
  split
  · exact .here _ _
  · exact .here _ _
  · refine .after fun v => ?_
    split <;> exact .here _ _

/-! ### Loops -/

/-- What holds of each item that is read holds of the whole list. -/
theorem Items.forall {item : Reader α} {P : α → Prop} (hitem : Ensures item P) {first : Bool}
    {c c' : Cursor} {as : List α} (h : Items item first c as c') : ∀ a ∈ as, P a := by
  induction h with
  | nil _ => nofun
  | cons _ ha _ ih => exact List.forall_mem_cons.mpr ⟨hitem ha, ih⟩

/-- **An invariant** that every member keeps holds behind the last one, if it holds before the
first. The induction is on the members. -/
theorem Members.inv {member : String → σ → Reader σ} {I : σ → Prop}
    (hmember : ∀ k s, I s → Ensures (member k s) I) {s s' : σ} {first : Bool} {c c' : Cursor}
    {n : Nat} (h : Members member s first c n s' c') (hs : I s) : I s' := by
  induction h with
  | nil _ => exact hs
  | cons _ _ hm _ ih => exact ih (hmember _ _ hs hm)

/-- A list leaves one level less to its items, and where there is none left it is not read. -/
theorem ensures_inList {body : Nat → Reader α} {P : α → Prop}
    (h : ∀ inner, levels = inner + 1 → Ensures (body inner) P) :
    Ensures (inList levels body) P := by
  cases levels with
  | zero => exact .ahead _ _
  | succ inner => exact .after fun _ => (h inner rfl).enclosed _ _

/-- So does an object. -/
theorem ensures_inObject {body : Nat → Reader α} {P : α → Prop}
    (h : ∀ inner, levels = inner + 1 → Ensures (body inner) P) :
    Ensures (inObject levels body) P := by
  cases levels with
  | zero => exact .ahead _ _
  | succ inner => exact .after fun _ => (h inner rfl).enclosed _ _

theorem ensures_listOf {item : Nat → Reader α} {P : α → Prop}
    (h : ∀ inner, levels = inner + 1 → Ensures (item inner) P) :
    Ensures (listOf levels item) fun as => ∀ a ∈ as, P a :=
  .after fun _ => ensures_inList fun inner hinner _ _ _ has =>
    (items_eq_done_iff.mp has).2.forall (h inner hinner)

theorem ensures_objectOf {member : Nat → String → σ → Reader σ} {I : σ → Prop} {s : σ}
    (h : ∀ inner, levels = inner + 1 → ∀ k s, I s → Ensures (member inner k s) I) (hs : I s) :
    Ensures (objectOf levels member s) I :=
  .after fun _ => ensures_inObject fun inner hinner _ _ _ hms => by
    obtain ⟨n, -, hms⟩ := members_eq_done_iff.mp hms
    exact hms.inv (h inner hinner) hs

/-! ### Values -/

/-- `Sound levels v`: no key comes twice in `v`, and it is nested no deeper than `levels`. -/
structure Sound (levels : Nat) (v : Value) : Prop where
  wellFormed : v.WellFormed
  fits : v.Fits levels

/-- There are no keys in a value without parts, and no levels. -/
theorem ensures_scalar : Ensures scalar (Sound levels) := by
  refine .after fun x => ?_
  split
  · exact .here _ _
  · exact .after fun _ => .pure ⟨.null, .null _⟩
  · exact .after fun _ => .pure ⟨.bool _, .bool _ _⟩
  · exact .after fun _ => .pure ⟨.bool _, .bool _ _⟩
  · exact .after fun _ => .after fun _ => .pure ⟨.string _, .string _ _⟩
  · split
    · exact .after fun _ => .pure ⟨.number _, .number _ _⟩
    · exact .ahead _ _

/-- A list takes one level more than its items. -/
theorem sound_array {vs : List Value} (h : ∀ v ∈ vs, Sound inner v) :
    Sound (inner + 1) (.array vs) :=
  ⟨.array fun v hv => (h v hv).wellFormed, .array fun v hv => (h v hv).fits⟩

/-- `SoundMembers inner d`: the members of an object whose values are sound. -/
structure SoundMembers (inner : Nat) (d : Dictionary Value) : Prop where
  nodup : (Dictionary.keys d).Nodup
  values : ∀ m ∈ d, Sound inner m.2

/-- So does an object, whose keys are distinct. -/
theorem SoundMembers.object {d : Dictionary Value} (h : SoundMembers inner d) :
    Sound (inner + 1) (.object d) :=
  ⟨.object h.nodup fun m hm => (h.values m hm).wellFormed, .object fun m hm => (h.values m hm).fits⟩

theorem soundMembers_nil : SoundMembers inner [] := ⟨.nil, nofun⟩

/-- A member that is put under its key takes the place of an earlier one, so no key comes twice. -/
theorem SoundMembers.put {d : Dictionary Value} (h : SoundMembers inner d) {v : Value}
    (hv : Sound inner v) (k : String) : SoundMembers inner (Dictionary.put k v d) :=
  ⟨Dictionary.nodup_keys_update h.nodup, Dictionary.forall_update h.values hv fun _ _ => hv⟩

/-- Members that are put one after another, each with a sound value. -/
theorem ensures_put {r : Reader Value} (hr : Ensures r (Sound inner)) {k : String}
    {d : Dictionary Value} (hd : SoundMembers inner d) :
    Ensures (do colon; return Dictionary.put k (← r) d) (SoundMembers inner) :=
  .after fun _ => hr.bind fun _ hv => .pure (hd.put hv k)

/-- **Any value that is read** repeats no key, and it is nested no deeper than the levels given. The
induction is on these levels. -/
theorem ensures_value (levels : Nat) : Ensures (value levels) (Sound levels) := by
  induction levels with
  | zero =>
      unfold value
      refine .after fun x => ?_
      split
      · exact .ahead _ _
      · exact .ahead _ _
      · exact ensures_scalar
  | succ inner ih =>
      unfold value
      refine .after fun x => ?_
      split
      · refine Ensures.bind (P := fun vs => ∀ v ∈ vs, Sound inner v) ?_ fun vs hvs =>
          .pure (sound_array hvs)
        exact ensures_listOf fun _ h => by cases h; exact ih
      · refine Ensures.bind (P := SoundMembers inner) ?_ fun d hd => .pure hd.object
        exact ensures_objectOf (fun _ h k d hd => by cases h; exact ensures_put ih hd)
          soundMembers_nil
      · exact ensures_scalar

/-- So do the members of an object, taken as a dictionary. -/
theorem ensures_map (levels : Nat) :
    Ensures (map levels) fun d => Sound levels (.object d) := by
  cases levels with
  | zero =>
      refine .after fun x => ?_
      split
      · exact .after fun _ => .ahead _ _
      · exact ensures_wrongKind _ _
  | succ inner =>
      refine .after fun x => ?_
      split
      · intro c d c' hd
        exact SoundMembers.object (ensures_objectOf (I := SoundMembers inner)
          (fun _ h k d hd => by cases h; exact ensures_put (ensures_value inner) hd)
          soundMembers_nil hd)
      · exact ensures_wrongKind _ _

/-- A number that must be positive is at least one. -/
theorem ensures_positive : Ensures positive fun n => 1 ≤ n := by
  refine .after fun n => ?_
  split
  · exact .unfit _ _
  · next h => exact .pure (Nat.one_le_iff_ne_zero.mpr fun e => h (UInt64.toNat_inj.mp e))

/-! ### Records -/

/-- The fields of a record may come as a list, each of them in its turn. Induction on the fields,
with the invariant of what has been read so far. -/
theorem ensures_inOrder {slots : List (Slot σ)} {I : σ → Prop}
    (hslots : ∀ slot ∈ slots, ∀ s, I s → Ensures (slot.read levels s) I) {s : σ} (hs : I s)
    (first : Bool) : Ensures (inOrder levels slots s first) I := by
  induction slots generalizing s first with
  | nil => exact .pure hs
  | cons slot slots ih =>
      obtain ⟨hslot, hslots⟩ := List.forall_mem_cons.mp hslots
      refine .after fun more => ?_
      split
      · exact (hslot s hs).bind fun s' hs' => ih hslots hs' false
      · exact .pure hs

/-- The fields may come as members as well, in any order. A name that is not known changes nothing.
-/
theorem ensures_member {slots : List (Slot σ)} {I : σ → Prop}
    (hslots : ∀ slot ∈ slots, ∀ s, I s → Ensures (slot.read levels s) I) (k : String) {s : σ}
    (hs : I s) : Ensures (member slots levels k s) I := by
  unfold member
  split
  · next slot hfind =>
      split
      · exact .unfit _ _
      · exact .after fun _ => hslots slot (List.mem_of_find?_eq_some hfind) s hs
  · exact .after fun _ => .after fun _ => .pure hs

/-- **An invariant of the fields** of a record, which each of them keeps, holds when the record is
complete. -/
theorem ensures_record {slots : List (Slot σ)} {ofObject ofList : σ → Reader α} {I : σ → Prop}
    {P : α → Prop} {s : σ} (hs : I s)
    (hslots : ∀ inner, levels = inner + 1 → ∀ slot ∈ slots, ∀ s, I s →
      Ensures (slot.read inner s) I)
    (hobject : ∀ s, I s → Ensures (ofObject s) P) (hlist : ∀ s, I s → Ensures (ofList s) P)
    (expected : String) : Ensures (record expected levels slots s ofObject ofList) P := by
  refine .after fun n => .after fun x => ?_
  split
  · exact ensures_inList fun inner hinner =>
      (ensures_inOrder (hslots inner hinner) hs true).bind hlist
  · refine ensures_inObject fun inner hinner => Ensures.bind (P := I) ?_ hobject
    intro c s' c' hms
    obtain ⟨m, -, hms⟩ := members_eq_done_iff.mp hms
    exact hms.inv (fun k s hs => ensures_member (hslots inner hinner) k hs) hs
  · exact ensures_wrongKind _ _

end Reader

end FacetQuery.Json
