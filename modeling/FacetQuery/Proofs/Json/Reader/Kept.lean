import FacetQuery.Proofs.Json.Reader.Records

/-!
# Json — Reader — What can be kept

Of a value that a reader keeps, all strings must be rows of characters, and all numbers must have a
place: a whole number of 64 bits, or a finite double. Nothing else of it can go wrong.

* `Tree.Decodes`: a value of which all can be kept.
* `Tree.exists_asValue?_iff`: such values are read, if they are not nested too deep.
* `Record.exists_read_iff`: an object is read as a record if its members are.
-/

namespace FacetQuery.Json

variable {κ : Type} {V : κ → Type} {σ α β : Type}

/-- `Decodes v`: the strings in `v` are rows of characters, without half a surrogate pair, and its
numbers are in range. -/
inductive Tree.Decodes : Tree → Prop where
  | null : Decodes .null
  | bool (b : Bool) : Decodes (.bool b)
  | number {p : NumberParts} {n : Number} : p.number? = some n → Decodes (.number p)
  | string (s : String) : Decodes (.string (some s))
  | array {items : List Tree} : (∀ v ∈ items, Decodes v) → Decodes (.array items)
  | object {members : List (Option String × Tree)} : (∀ m ∈ members, m.1 ≠ none) →
      (∀ m ∈ members, Decodes m.2) → Decodes (.object members)

/-! ### Lists and members -/

/-- A list is read if each of its items is, by induction on it. -/
theorem exists_mapM_iff {f : α → Option β} {as : List α} :
    (∃ bs, as.mapM f = some bs) ↔ ∀ a ∈ as, ∃ b, f a = some b := by
  induction as with
  | nil => simp
  | cons a as ih =>
      rw [List.mapM_cons, List.forall_mem_cons, ← ih]
      constructor
      · rintro ⟨_, h⟩
        obtain ⟨b, hb, h⟩ := Option.bind_eq_some_iff.mp h
        obtain ⟨bs, hbs, -⟩ := Option.bind_eq_some_iff.mp h
        exact ⟨⟨b, hb⟩, bs, hbs⟩
      · rintro ⟨⟨b, hb⟩, bs, hbs⟩
        exact ⟨b :: bs, by rw [hb, hbs]; rfl⟩

namespace Tree

/-- Members that are read each by itself are all read, if their keys are strings. Induction on them,
for whatever has been read before. -/
theorem exists_foldMembers_iff {step : String → Tree → σ → Option σ} {P : Tree → Prop}
    (hstep : ∀ k v s, (∃ s', step k v s = some s') ↔ P v) {ms : List (Option String × Tree)}
    (s : σ) : (∃ s', foldMembers step ms s = some s') ↔
      (∀ m ∈ ms, m.1 ≠ none) ∧ ∀ m ∈ ms, P m.2 := by
  induction ms generalizing s with
  | nil => simp [foldMembers]
  | cons m ms ih =>
      obtain ⟨_ | k, v⟩ := m
      · simp [foldMembers]
      · simp only [foldMembers, List.forall_mem_cons]
        constructor
        · rintro ⟨s', h⟩
          obtain ⟨s₁, hs₁, h⟩ := Option.bind_eq_some_iff.mp h
          obtain ⟨hkeys, hms⟩ := (ih s₁).mp ⟨s', h⟩
          exact ⟨⟨Option.some_ne_none k, hkeys⟩, (hstep k v s).mp ⟨s₁, hs₁⟩, hms⟩
        · rintro ⟨⟨-, hkeys⟩, hv, hms⟩
          obtain ⟨s₁, hs₁⟩ := (hstep k v s).mpr hv
          obtain ⟨s', h⟩ := (ih s₁).mpr ⟨hkeys, hms⟩
          exact ⟨s', Option.bind_eq_some_iff.mpr ⟨s₁, hs₁, h⟩⟩

/-- A number can be kept if it is in range. -/
theorem decodes_number_iff {p : NumberParts} :
    (Tree.number p).Decodes ↔ ∃ n, p.number? = some n := by
  constructor
  · intro h
    cases h with
    | number h => exact ⟨_, h⟩
  · rintro ⟨n, h⟩
    exact .number h

/-- A string can be kept if it is a row of characters. -/
theorem decodes_string_iff {s : Option String} : (Tree.string s).Decodes ↔ ∃ t, s = some t := by
  constructor
  · intro h
    cases h with
    | string t => exact ⟨t, rfl⟩
  · rintro ⟨t, rfl⟩
    exact .string t

theorem decodes_array_iff {items : List Tree} :
    (Tree.array items).Decodes ↔ ∀ v ∈ items, v.Decodes :=
  ⟨fun h => by cases h with | array h => exact h, .array⟩

/-- In an object, keys count as well as values. -/
theorem decodes_object_iff {members : List (Option String × Tree)} :
    (Tree.object members).Decodes ↔ (∀ m ∈ members, m.1 ≠ none) ∧ ∀ m ∈ members, m.2.Decodes :=
  ⟨fun h => by cases h with | object hkeys h => exact ⟨hkeys, h⟩, fun h => .object h.1 h.2⟩

/-- Members that are put under their keys are kept if their values are. -/
theorem exists_putMembers_iff {levels : Nat} {ms : List (Option String × Tree)}
    (hvalues : ∀ m ∈ ms, (∃ a, m.2.asValue? levels = some a) ↔ m.2.Decodes) :
    (∃ d, foldMembers (fun k v d => (asValue? levels v).map (Dictionary.put k · d)) ms [] = some d) ↔
      (Tree.object ms).Decodes := by
  rw [decodes_object_iff, ← forall₂_congr hvalues]
  exact exists_foldMembers_iff (P := fun v => ∃ a, v.asValue? levels = some a)
    (fun k v d => by simp) []

/-- **A value is kept** if all of it can be kept, and it is nested no deeper than the levels left.
The induction is on how it fits into these levels. -/
theorem exists_asValue?_iff {levels : Nat} {v : Tree} (hfits : v.Fits levels) :
    (∃ a, v.asValue? levels = some a) ↔ v.Decodes := by
  induction hfits with
  | null => simpa [asValue?] using Decodes.null
  | bool levels b => simpa [asValue?] using Decodes.bool b
  | number levels p => simp [asValue?, decodes_number_iff]
  | string levels s => simp [asValue?, decodes_string_iff]
  | array _ ih =>
      rw [decodes_array_iff, asValue?, ← forall₂_congr ih, ← exists_mapM_iff]
      simp
  | object _ ih =>
      rw [asValue?, ← exists_putMembers_iff ih]
      simp

/-- The members of an object are kept by the same rule. -/
theorem exists_asMap?_iff {levels : Nat} {ms : List (Option String × Tree)}
    (hfits : (Tree.object ms).Fits levels) :
    (∃ a, (Tree.object ms).asMap? levels = some a) ↔ (Tree.object ms).Decodes := by
  cases hfits with
  | object hms => exact exists_putMembers_iff fun m hm => exists_asValue?_iff (hms m hm)

end Tree

/-! ### Records -/

namespace Record

variable {R : Record V σ α} {value : (k : κ) → Tree → Option (V k)}

/-- A field has been read if it had been before, or if one of the members has its name. So fields
without a default are those that must be there. -/
theorem isSome_get_of_foldMembers {f : Field V σ} (hf : f ∈ R.fields)
    {ms : List (Option String × Tree)} {s s' : σ}
    (h : Tree.foldMembers (setMember value R.fields) ms s = some s')
    (hset : (f.get s).isSome = true ∨ some f.name ∈ ms.map Prod.fst) :
    (f.get s').isSome = true := by
  induction ms generalizing s with
  | nil =>
      cases h
      exact hset.resolve_right List.not_mem_nil
  | cons m ms ih =>
      obtain ⟨_ | k, v⟩ := m
      · cases h
      · obtain ⟨s₁, hs₁, h⟩ := Option.bind_eq_some_iff.mp h
        refine ih h ?_
        -- The member sets the field, or one that is told apart from it.
        by_cases hk : k = f.name
        · subst hk
          rw [setMember_name hf] at hs₁
          obtain ⟨a, -, rfl⟩ := exists_of_setOnce hs₁
          exact .inl (by rw [R.get_set f hf, Option.isSome_some])
        · rw [get_of_setMember hf hk hs₁]
          exact hset.imp_right fun hmem => (List.mem_cons.mp hmem).resolve_left
            fun heq => hk (Option.some.inj heq).symm

/-- A member is read if its value is good for the field of its name, or if there is no such field. -/
theorem exists_setMember_iff {k : String} {v : Tree} {s : σ}
    (hnew : ∀ f ∈ R.fields, f.name = k → f.get s = none) :
    (∃ s', setMember value R.fields k v s = some s') ↔
      ∀ f ∈ R.fields, f.name = k → ∃ a, value f.kind v = some a := by
  rcases exists_name_or_unknown R k with ⟨f, hf, rfl⟩ | hunknown
  · rw [setMember_name hf, Field.setOnce, hnew f hf rfl]
    constructor
    · rintro ⟨_, h⟩ g hg hname
      obtain ⟨a, ha, -⟩ := Option.map_eq_some_iff.mp h
      obtain rfl : f = g := Option.some.inj ((find?_name hf).symm.trans (hname ▸ find?_name hg))
      exact ⟨a, ha⟩
    · intro h
      obtain ⟨a, ha⟩ := h f hf rfl
      exact ⟨f.set a s, by rw [ha]; rfl⟩
  · rw [setMember_unknown hunknown]
    exact ⟨fun _ f hf hname => absurd hname (hunknown f hf), fun _ => ⟨s, rfl⟩⟩

/-- **Members are read** if their keys are strings, none of which comes twice, and if what stands
under the names of fields is good there. -/
theorem exists_foldMembers_iff {ms : List (Option String × Tree)}
    (hdistinct : (ms.filterMap Prod.fst).Nodup) {s : σ}
    (hnew : ∀ f ∈ R.fields, some f.name ∈ ms.map Prod.fst → f.get s = none) :
    (∃ s', Tree.foldMembers (setMember value R.fields) ms s = some s') ↔
      (∀ m ∈ ms, m.1 ≠ none) ∧
        ∀ f ∈ R.fields, ∀ v, (some f.name, v) ∈ ms → ∃ a, value f.kind v = some a := by
  induction ms generalizing s with
  | nil => simp [Tree.foldMembers]
  | cons m ms ih =>
      obtain ⟨_ | k, v⟩ := m
      · simp [Tree.foldMembers]
      · obtain ⟨hk, hdistinct⟩ := List.nodup_cons.mp hdistinct
        have hfirst : (∃ s', setMember value R.fields k v s = some s') ↔
            ∀ f ∈ R.fields, f.name = k → ∃ a, value f.kind v = some a :=
          exists_setMember_iff fun f hf hname =>
            hnew f hf (List.mem_cons.mpr (.inl (congrArg some hname)))
        -- Behind the first member, the fields of the others are as they were.
        have hrest {s₁ : σ} (hs₁ : setMember value R.fields k v s = some s₁) :=
          ih hdistinct (s := s₁) fun f hf hmem => by
            have hne : k ≠ f.name := by
              rintro rfl
              simp at hk hmem
              exact hk _ hmem.choose_spec
            rw [get_of_setMember hf hne hs₁]
            exact hnew f hf (List.mem_cons_of_mem _ hmem)
        constructor
        · rintro ⟨s', h⟩
          obtain ⟨s₁, hs₁, h⟩ := Option.bind_eq_some_iff.mp h
          obtain ⟨hkeys, hvalues⟩ := (hrest hs₁).mp ⟨s', h⟩
          refine ⟨List.forall_mem_cons.mpr ⟨Option.some_ne_none k, hkeys⟩, fun f hf w hw => ?_⟩
          rcases List.mem_cons.mp hw with heq | hw
          · cases heq
            exact hfirst.mp ⟨s₁, hs₁⟩ f hf rfl
          · exact hvalues f hf w hw
        · rintro ⟨hkeys, hvalues⟩
          obtain ⟨s₁, hs₁⟩ := hfirst.mpr fun f hf hname =>
            hvalues f hf v (List.mem_cons.mpr (.inl (by rw [hname])))
          obtain ⟨s', h⟩ := (hrest hs₁).mpr ⟨(List.forall_mem_cons.mp hkeys).2, fun f hf w hw =>
            hvalues f hf w (List.mem_cons_of_mem _ hw)⟩
          exact ⟨s', Option.bind_eq_some_iff.mpr ⟨s₁, hs₁, h⟩⟩

/-- **An object is read as a record** that has all the fields it must have, if its members are. No
key may come twice, or a field would be read again. -/
theorem exists_read_iff {ms : List (Option String × Tree)}
    (hdistinct : (ms.filterMap Prod.fst).Nodup)
    (hrequired : ∀ f ∈ R.fields, f.default? = none → some f.name ∈ ms.map Prod.fst)
    (hfinish : ∀ s, (∀ f ∈ R.fields, f.default? = none → (f.get s).isSome = true) →
      ∃ a, R.finish s = some a) :
    (∃ a, R.read value (.object ms) = some a) ↔
      (∀ m ∈ ms, m.1 ≠ none) ∧
        ∀ f ∈ R.fields, ∀ v, (some f.name, v) ∈ ms → ∃ a, value f.kind v = some a := by
  rw [← exists_foldMembers_iff hdistinct fun f hf _ => R.get_empty f hf, read]
  constructor
  · rintro ⟨a, h⟩
    obtain ⟨s, hs, -⟩ := Option.bind_eq_some_iff.mp h
    exact ⟨s, hs⟩
  · rintro ⟨s, hs⟩
    -- Fields without a default are among the members, so they have been read.
    obtain ⟨a, ha⟩ := hfinish s fun f hf hnone =>
      isSome_get_of_foldMembers hf hs (.inr (hrequired f hf hnone))
    exact ⟨a, Option.bind_eq_some_iff.mpr ⟨s, hs, ha⟩⟩

end Record

end FacetQuery.Json
