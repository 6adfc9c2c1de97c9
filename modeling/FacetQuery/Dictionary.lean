/-!
# Dictionaries

A dictionary lists its entries in the order in which their keys first came.

- `Dictionary.put` writes in place under a key that is there and at the end otherwise.
- `Dictionary.find?_put`: reading after a write sees the write at its key and nothing new elsewhere.
- `Dictionary.keys_put`: a write adds at most its own key, and that one at the end.
-/

namespace FacetQuery

/-- Entries in the order of their keys' first appearance. -/
abbrev Dictionary (α : Type) := List (String × α)

namespace Dictionary

variable {α β : Type}

/-- `find? key d` is the value under `key`. -/
def find? (key : String) : Dictionary α → Option α
  | [] => none
  | (k, v) :: rest => if k = key then some v else find? key rest

/-- `update key new change d` changes the value under `key`, or adds `new` at the end. -/
def update (key : String) (new : α) (change : α → α) : Dictionary α → Dictionary α
  | [] => [(key, new)]
  | (k, v) :: rest =>
      if k = key then (k, change v) :: rest else (k, v) :: update key new change rest

/-- `put key value d` holds `value` under `key`, in the place of an old value if there was one. -/
def put (key : String) (value : α) (d : Dictionary α) : Dictionary α :=
  update key value (fun _ => value) d

/-- `ofEntries es` puts the entries one after another into an empty dictionary. -/
def ofEntries (entries : List (String × α)) : Dictionary α :=
  entries.foldl (fun d entry => put entry.1 entry.2 d) []

/-- `keys d` are the keys of `d` in order. -/
def keys (d : Dictionary α) : List String :=
  d.map Prod.fst

/-! ### Reading after writing -/

theorem find?_update (key k : String) (new : α) (change : α → α) (d : Dictionary α) :
    find? k (update key new change d) =
      if k = key then some ((find? key d).elim new change) else find? k d := by
  induction d with
  | nil => simp only [update, find?, eq_comm (a := key), Option.elim]
  | cons entry rest ih =>
      obtain ⟨e, v⟩ := entry
      by_cases h : e = key
      · subst h
        by_cases hk : k = e
        · subst hk; simp [update, find?]
        · simp [update, find?, hk, Ne.symm hk]
      · by_cases hk : e = k
        · subst hk; simp [update, find?, h]
        · simp [update, find?, h, hk, ih]

theorem find?_put (key k : String) (value : α) (d : Dictionary α) :
    find? k (put key value d) = if k = key then some value else find? k d := by
  rw [put, find?_update]
  cases find? key d <;> rfl

theorem keys_update (key : String) (new : α) (change : α → α) (d : Dictionary α) :
    keys (update key new change d) = if key ∈ keys d then keys d else keys d ++ [key] := by
  induction d with
  | nil => simp [update, keys]
  | cons entry rest ih =>
      obtain ⟨e, v⟩ := entry
      by_cases h : e = key
      · subst h; simp [update, keys]
      · simp only [keys] at ih
        by_cases hr : key ∈ List.map Prod.fst rest
        · simp [update, keys, h, ih, hr]
        · simp [update, keys, h, Ne.symm h, ih, hr]

theorem keys_put (key : String) (value : α) (d : Dictionary α) :
    keys (put key value d) = if key ∈ keys d then keys d else keys d ++ [key] :=
  keys_update key value _ d

/-- Writing keeps the keys distinct. -/
theorem nodup_keys_update {key : String} {new : α} {change : α → α} {d : Dictionary α}
    (h : (keys d).Nodup) : (keys (update key new change d)).Nodup := by
  rw [keys_update]
  split
  · exact h
  · next hk =>
      rw [List.nodup_append]
      exact ⟨h, by simp, by intro a ha b hb; simp at hb; subst hb; exact fun e => hk (e ▸ ha)⟩

end Dictionary

end FacetQuery
