import FacetQuery.Dictionary
import Mathlib.Data.List.Induction
import Mathlib.Data.List.Nodup

/-!
# Dictionary — Writing many entries

* `find?_eq_some_iff`, `find?_eq_none_iff`: reading finds the first entry under a key, if any.
* `update_of_notMem`, `update_append_cons`: a write changes that entry, or adds one at the end.
* `find?_map`: reading where every value has been changed.
* `mem_ofEntries`: a dictionary made of entries holds nothing but some of them.
* `ofEntries_eq_self_iff`: it holds all of them in their order just in case no two have one key.
* `keys_ofEntries`, `exists_last_of_mem_ofEntries`: else a key stands where it first came, with what
  came last under it.
-/

namespace FacetQuery.Dictionary

variable {α : Type}

/-- Changing the values leaves each key where it is, so reading finds the changed value. -/
theorem find?_map {β : Type} (f : String → α → β) (key : String) (d : Dictionary α) :
    find? key (d.map fun m => (m.1, f m.1 m.2)) = (find? key d).map (f key) := by
  induction d with
  | nil => rfl
  | cons m d ih =>
      rw [List.map_cons, find?, find?]
      split
      · next hk => rw [← hk]; rfl
      · exact ih

/-- Reading finds the first entry under a key: the one in front of which no other has this key. -/
theorem find?_eq_some_iff {key : String} {d : Dictionary α} {v : α} :
    find? key d = some v ↔ ∃ before after, d = before ++ (key, v) :: after ∧ key ∉ keys before := by
  induction d with
  | nil => simp [find?]
  | cons entry d ih =>
      obtain ⟨k, w⟩ := entry
      rw [find?]
      split
      · next hk =>
          -- The entry in front has the key, so nothing stands before it.
          subst hk
          constructor
          · intro h
            cases h
            exact ⟨[], d, rfl, List.not_mem_nil⟩
          · rintro ⟨_ | ⟨_, before⟩, after, hd, hbefore⟩
            · cases hd
              rfl
            · cases hd
              exact absurd List.mem_cons_self hbefore
      · next hk =>
          rw [ih]
          constructor
          · rintro ⟨before, after, rfl, hbefore⟩
            refine ⟨(k, w) :: before, after, rfl, fun hmem => ?_⟩
            exact (List.mem_cons.mp hmem).elim (Ne.symm hk) hbefore
          · rintro ⟨_ | ⟨_, before⟩, after, hd, hbefore⟩
            · cases hd
              exact absurd rfl hk
            · cases hd
              exact ⟨before, after, rfl, fun hmem => hbefore (List.mem_cons_of_mem _ hmem)⟩

theorem mem_of_find? {key : String} {d : Dictionary α} {v : α} (h : find? key d = some v) :
    (key, v) ∈ d := by
  obtain ⟨before, after, rfl, -⟩ := find?_eq_some_iff.mp h
  exact List.mem_append_right before List.mem_cons_self

/-- Nothing is read under a key that is not there. -/
theorem find?_eq_none_iff {key : String} {d : Dictionary α} :
    find? key d = none ↔ key ∉ keys d := by
  induction d with
  | nil => simp [find?, keys]
  | cons entry d ih =>
      obtain ⟨k, w⟩ := entry
      rw [find?]
      split
      · next hk => simp [keys, hk]
      · next hk => rw [ih]; simp [keys, Ne.symm hk]

theorem ne_of_find?_eq_none {key : String} {d : Dictionary α}
    (h : find? key d = none) {m : String × α} (hm : m ∈ d) : m.1 ≠ key :=
  fun hk => find?_eq_none_iff.mp h (hk ▸ List.mem_map_of_mem hm)

theorem update_of_notMem {key : String} {new : α} {change : α → α} {d : Dictionary α}
    (h : key ∉ keys d) : update key new change d = d ++ [(key, new)] := by
  induction d with
  | nil => rfl
  | cons entry d ih =>
      obtain ⟨k, v⟩ := entry
      simp only [keys, List.map_cons, List.mem_cons, not_or] at h
      rw [update, if_neg (Ne.symm h.1), ih h.2, List.cons_append]

/-- A write under a key that is there changes its first entry and leaves the others in place. -/
theorem update_append_cons {key : String} {new old : α} {change : α → α} {d after : Dictionary α}
    (h : key ∉ keys d) :
    update key new change (d ++ (key, old) :: after) = d ++ (key, change old) :: after := by
  induction d with
  | nil => simp [update]
  | cons entry d ih =>
      obtain ⟨k, v⟩ := entry
      simp only [keys, List.map_cons, List.mem_cons, not_or] at h
      rw [List.cons_append, update, if_neg (Ne.symm h.1), ih h.2, List.cons_append]

/-- A property of all entries that the write keeps holds of all entries behind it. -/
theorem forall_mem_update {P : String → α → Prop} {key : String} {new : α} {change : α → α}
    {d : Dictionary α} (hd : ∀ m ∈ d, P m.1 m.2) (hnew : P key new)
    (hchange : ∀ v, P key v → P key (change v)) : ∀ m ∈ update key new change d, P m.1 m.2 := by
  induction d with
  | nil => simpa [update] using hnew
  | cons entry d ih =>
      obtain ⟨k, v⟩ := entry
      obtain ⟨hv, hd⟩ := List.forall_mem_cons.mp hd
      rw [update]
      split
      · next hk => exact List.forall_mem_cons.mpr ⟨hk ▸ hchange v (hk ▸ hv), hd⟩
      · exact List.forall_mem_cons.mpr ⟨hv, ih hd⟩

theorem forall_update {P : α → Prop} {key : String} {new : α} {change : α → α} {d : Dictionary α}
    (hd : ∀ m ∈ d, P m.2) (hnew : P new) (hchange : ∀ v, P v → P (change v)) :
    ∀ m ∈ update key new change d, P m.2 :=
  forall_mem_update (P := fun _ => P) hd hnew hchange

/-- A write leaves something behind. -/
theorem update_ne_nil (key : String) (new : α) (change : α → α) (d : Dictionary α) :
    update key new change d ≠ [] := by
  cases d with
  | nil => exact List.cons_ne_nil _ _
  | cons entry d =>
      rw [update]
      split
      · exact List.cons_ne_nil _ _
      · exact List.cons_ne_nil _ _

/-- An entry behind a write is the one written, or was there before. -/
theorem mem_put {key : String} {value : α} {d : Dictionary α} {entry : String × α}
    (h : entry ∈ put key value d) : entry = (key, value) ∨ entry ∈ d := by
  induction d with
  | nil => exact .inl (by simpa [put, update] using h)
  | cons first d ih =>
      obtain ⟨k, v⟩ := first
      rw [put, update] at h
      split at h
      · next hk =>
          rcases List.mem_cons.mp h with rfl | h
          · exact .inl (by rw [hk])
          · exact .inr (List.mem_cons_of_mem _ h)
      · rcases List.mem_cons.mp h with rfl | h
        · exact .inr List.mem_cons_self
        · exact (ih h).imp_right (List.mem_cons_of_mem _)

/-- Where no key comes twice, a write leaves nothing else under its key, since there was one entry
at most to be written over. -/
theorem mem_put_of_nodup {key : String} {value : α} {d : Dictionary α} {entry : String × α}
    (hd : (keys d).Nodup) (h : entry ∈ put key value d) :
    entry = (key, value) ∨ entry.1 ≠ key ∧ entry ∈ d := by
  induction d with
  | nil => exact .inl (by simpa [put, update] using h)
  | cons first d ih =>
      obtain ⟨k, v⟩ := first
      obtain ⟨hk, hd⟩ := List.nodup_cons.mp hd
      rw [put, update] at h
      split at h
      · next heq =>
          rcases List.mem_cons.mp h with rfl | h
          · exact .inl (by rw [heq])
          · have hentry : entry.1 ∈ keys d := List.mem_map_of_mem h
            exact .inr ⟨fun he => hk (heq ▸ he ▸ hentry), List.mem_cons_of_mem _ h⟩
      · next hne =>
          rcases List.mem_cons.mp h with rfl | h
          · exact .inr ⟨hne, List.mem_cons_self⟩
          · exact (ih hd h).imp_right (.imp_right (List.mem_cons_of_mem _))

/-- Many writes leave nothing but what was there and what was written. -/
theorem mem_foldl_put {entries : List (String × α)} {d : Dictionary α} {entry : String × α}
    (h : entry ∈ entries.foldl (fun d e => put e.1 e.2 d) d) : entry ∈ d ∨ entry ∈ entries := by
  induction entries generalizing d with
  | nil => exact .inl h
  | cons e es ih =>
      rcases ih h with h | h
      · exact (mem_put h).elim (fun he => .inr (he ▸ List.mem_cons_self)) .inl
      · exact .inr (List.mem_cons_of_mem _ h)

/-- Nothing gets into a dictionary but the entries it is made of. -/
theorem mem_ofEntries {entries : List (String × α)} {entry : String × α}
    (h : entry ∈ ofEntries entries) : entry ∈ entries :=
  (mem_foldl_put h).resolve_left List.not_mem_nil

/-- Writes under distinct new keys add the entries one behind the other. -/
theorem foldl_put_of_nodup {entries : List (String × α)} {d : Dictionary α}
    (h : (keys (d ++ entries)).Nodup) :
    entries.foldl (fun d e => put e.1 e.2 d) d = d ++ entries := by
  induction entries generalizing d with
  | nil => rw [List.append_nil]; rfl
  | cons e es ih =>
      have hes : d ++ e :: es = (d ++ [(e.1, e.2)]) ++ es := by simp
      rw [hes] at h
      -- The key is new when its turn comes, so its entry goes to the end.
      have hk : e.1 ∉ keys d := by
        simp only [keys, List.map_append, List.map_cons, List.map_nil] at h
        exact List.disjoint_singleton.mp (List.disjoint_of_nodup_append h.of_append_left)
      rw [List.foldl_cons, put, update_of_notMem hk, ih h, hes]

/-- **Entries under distinct keys** make up the dictionary as they are, in their order: each write
adds one entry at the end. -/
theorem ofEntries_of_nodup {entries : List (String × α)} (h : (entries.map Prod.fst).Nodup) :
    ofEntries entries = entries :=
  foldl_put_of_nodup (d := []) h

/-! ### Keys that come again -/

/-- Steps that each add a key unless it is there leave the keys in order of their first steps. Said
of any steps, since values may depend on what was there. -/
theorem keys_foldl {ε : Type} {f : Dictionary α → ε → Dictionary α} {key : ε → String}
    (step : ∀ d e, keys (f d e) = if key e ∈ keys d then keys d else keys d ++ [key e])
    (es : List ε) : keys (es.foldl f []) = (es.map key).eraseDups := by
  induction es using List.reverseRecOn with
  | nil => rfl
  | append_singleton es e ih =>
      rw [List.foldl_concat, step, ih, List.map_append, List.map_singleton, List.eraseDups_append,
        List.removeAll, List.filter_cons, List.filter_nil]
      by_cases h : key e ∈ es.map key
      · simp [h, List.mem_eraseDups]
      · simp only [List.mem_eraseDups, h, List.elem_eq_mem, decide_false, Bool.not_false, if_true,
          if_false]
        rfl

/-- A key stands where it first came. -/
theorem keys_ofEntries (entries : List (String × α)) :
    keys (ofEntries entries) = (entries.map Prod.fst).eraseDups :=
  keys_foldl (fun d e => keys_put e.1 e.2 d) entries

theorem nodup_keys_ofEntries (entries : List (String × α)) : (keys (ofEntries entries)).Nodup :=
  List.foldlRecOn (motive := fun d => (keys d).Nodup) entries _ .nil
    fun _ h _ _ => nodup_keys_update h

/-- An entry of a dictionary has what came last under its key: behind the entry it comes from, no
other has this key. -/
theorem exists_last_of_mem_ofEntries {entries : List (String × α)} {entry : String × α}
    (h : entry ∈ ofEntries entries) :
    ∃ before after, entries = before ++ entry :: after ∧ ∀ e ∈ after, e.1 ≠ entry.1 := by
  induction entries using List.reverseRecOn with
  | nil => cases h
  | append_singleton es e ih =>
      rw [ofEntries, List.foldl_concat] at h
      rcases mem_put_of_nodup (nodup_keys_ofEntries es) h with rfl | ⟨hne, h⟩
      · exact ⟨es, [], rfl, List.forall_mem_nil _⟩
      · obtain ⟨before, after, rfl, hafter⟩ := ih h
        refine ⟨before, after ++ [e], by simp, fun e' he' => ?_⟩
        rcases List.mem_append.mp he' with he' | he'
        · exact hafter e' he'
        · exact List.mem_singleton.mp he' ▸ hne.symm

/-- **A dictionary holds its entries as they are** just in case no two of them have one key.
Otherwise keys are fewer than entries. -/
theorem ofEntries_eq_self_iff {entries : List (String × α)} :
    ofEntries entries = entries ↔ (entries.map Prod.fst).Nodup := by
  refine ⟨fun h => ?_, ofEntries_of_nodup⟩
  have hkeys := nodup_keys_ofEntries entries
  rwa [h] at hkeys

end FacetQuery.Dictionary
