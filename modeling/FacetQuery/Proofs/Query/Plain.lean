import FacetQuery.Proofs.Params.QueryString
import FacetQuery.Proofs.Query.Roots

/-!
# Query — Filters written plainly

A query string is cut at its ampersands, and each pair at its first `=`, before anything is decoded.
So the key of a filter may be written as it is, brackets and blanks included, unless its operator
has a `=` in its name.  Such a pair is cut within the key, and what is left of the key names no
filter.

* `Params.Swaps t t' query query'`: two query strings that differ in one text;
  `Params.read_eq_of_swaps`: they have the same parameters if the two texts are read alike.
* `Filter.key`: the key of a filter; `Filter.plainText`, `Filter.escapedText` and
  `Filter.encodedText`: a pair with this key written as it is, with its `=` encoded, and encoded as
  a whole.
* `Filter.ReadsPlainly`: which of these say the same; `Filter.readsPlainly`: what it takes.
-/

namespace FacetQuery

open Json Text

namespace Params

/-! ### One text of a query string -/

/-- `Swaps t t' query query'` says that `query'` has the text `t'` in the place of one `t` of
`query`, and no other text is different. -/
def Swaps (t t' : List Char) (query query' : String) : Prop :=
  ∃ before after, texts query = before ++ t :: after ∧ texts query' = before ++ t' :: after

theorem isKeyed_iff {t : List Char} : IsKeyed t ↔ (Pair.read t).key ≠ [] := by
  refine and_iff_right_of_imp fun hkey => ?_
  rintro rfl
  exact hkey rfl

/-- The pairs of a query string are those of its texts that have a key. -/
theorem pairs_eq_filter (query : String) :
    pairs query = ((texts query).map Pair.read).filter (·.key ≠ []) := by
  rw [pairs_eq, List.filter_map]
  congr 2
  funext t
  exact decide_eq_decide.mpr isKeyed_iff

/-- A text can take the place of another if it is read as the same pair. -/
theorem read_eq_of_swaps {t t' : List Char} {query query' : String}
    (hread : Pair.read t' = Pair.read t) (h : Swaps t t' query query') :
    read query' = read query := by
  obtain ⟨before, after, hquery, hquery'⟩ := h
  rw [read, read, pairs_eq_filter, pairs_eq_filter, hquery, hquery', List.map_append,
    List.map_append, List.map_cons, List.map_cons, hread]

/-- A pair of another root leaves no trace at the roots that it does not belong to, whichever text
it is read from. -/
theorem filter_pairs_of_swaps {t : List Char} {query query' : String} {k : String}
    (hroot : (Pair.read t).root ≠ k) (h : Swaps t [] query query') :
    (pairs query').filter (·.root = k) = (pairs query).filter (·.root = k) := by
  obtain ⟨before, after, hquery, hquery'⟩ := h
  have hempty : (Pair.read []).key = [] := rfl
  rw [pairs_eq_filter, pairs_eq_filter, hquery, hquery']
  simp only [List.map_append, List.map_cons, List.filter_append, List.filter_cons, hempty]
  by_cases hkey : (Pair.read t).key = []
  · simp [hkey]
  · simp [hkey, hroot]

/-- A text that is a query string of its own. -/
theorem texts_ofList {t : List Char} (hamp : '&' ∉ t) (hmark : t.head? ≠ some '?') :
    texts (String.ofList t) = [t] := by
  have hbody : body t = t := by
    unfold body
    split
    · exact absurd rfl hmark
    · rfl
  rw [texts, String.toList_ofList, hbody, splitOn_of_notMem hamp]

theorem read_eq_of_texts {t : List Char} {query : String} (h : texts query = [t])
    (hkey : (Pair.read t).key ≠ []) : read query = (Pair.read t).assignTo [] := by
  rw [read, pairs_eq_filter, h]
  simp [hkey, ofPairs]

theorem keys_read_of_texts {t : List Char} {query : String} (h : texts query = [t])
    (hkey : (Pair.read t).key ≠ []) : Dictionary.keys (read query) = [(Pair.read t).root] := by
  rw [read_eq_of_texts h hkey, Pair.keys_assignTo]
  simp [Dictionary.keys]

end Params

namespace Filter

open Params

/-! ### The pair of a filter -/

/-- `stem field` is what stands in front of the operator in the key of a filter. -/
def stem (field : String) : List Char := parameter.toList ++ '[' :: (field.toList ++ [']'])

/-- `key field op` is the key of a filter by `op`. -/
def key (field : String) (op : Operator) : List Char :=
  (keyOf [parameter, field, op.name]).text

/-- `escapeEquals digit cs` encodes each `=` in `cs` and nothing else. -/
def escapeEquals (digit : Nat → Char) (cs : List Char) : List Char :=
  cs.flatMap fun c => if c = '=' then percentEncode digit [c] else [c]

/-- `plainText digit field op value` is a pair with its key as it is. -/
def plainText (digit : Nat → Char) (field : String) (op : Operator) (value : List Char) :
    List Char :=
  key field op ++ '=' :: percentEncode digit value

/-- `escapedText digit field op value` is a pair with its key as it is but for each `=` in it. -/
def escapedText (digit : Nat → Char) (field : String) (op : Operator) (value : List Char) :
    List Char :=
  escapeEquals digit (key field op) ++ '=' :: percentEncode digit value

/-- `encodedText digit field op value` is a pair with every byte encoded. -/
def encodedText (digit : Nat → Char) (field : String) (op : Operator) (value : List Char) :
    List Char :=
  pairText digit ⟨key field op, value⟩

/-- The characters that have a meaning in a query string. -/
def separators : List Char := ['&', '=', '%', '+']

/-- `IsBare field` says that no character of `field` has a meaning in a query string or in a key. -/
def IsBare (field : String) : Prop := ∀ c ∈ separators ++ ['[', ']'], c ∉ field.toList

instance (field : String) : Decidable (IsBare field) := List.decidableBAll _ _

variable {digit : Nat → Char} {field : String}

theorem key_eq (field : String) (op : Operator) :
    key field op = stem field ++ '[' :: (op.name.toList ++ [']']) := by
  simp [key, keyOf, Key.text, stem]

/-- Of these characters only the `=` is in the name of an operator. -/
theorem notMem_name {c : Char} (hc : c ∈ separators ++ ['[', ']']) (hne : c ≠ '=')
    (op : Operator) : c ∉ op.name.toList := by
  have hnone : (separators ++ ['[', ']']).all (fun c => c = '=' || c ∉ op.name.toList) = true := by
    cases op <;> rfl
  have hname := List.all_eq_true.mp hnone c hc
  simpa [hne] using hname

theorem ne_bracket {c : Char} (hc : c ∈ separators) : c ≠ '[' ∧ c ≠ ']' := by
  have hnone : separators.all (fun c => c ≠ '[' && c ≠ ']') = true := rfl
  simpa using List.all_eq_true.mp hnone c hc

/-- No separator is in the stem: none is in the name of the parameter, and the field is bare. -/
theorem notMem_stem {c : Char} (hc : c ∈ separators) (hfield : IsBare field) : c ∉ stem field := by
  obtain ⟨hopen, hclose⟩ := ne_bracket hc
  have hnone : separators.all (fun c => c ∉ parameter.toList) = true := rfl
  have hparameter : c ∉ parameter.toList := by simpa using List.all_eq_true.mp hnone c hc
  have hname : c ∉ field.toList := hfield c (List.mem_append_left _ hc)
  simp [stem, hparameter, hopen, hclose, hname]

theorem notMem_key {c : Char} (hc : c ∈ separators) (hfield : IsBare field) {op : Operator}
    (hop : c ∉ op.name.toList) : c ∉ key field op := by
  obtain ⟨hopen, hclose⟩ := ne_bracket hc
  rw [key_eq]
  simp [notMem_stem hc hfield, hop, hopen, hclose]

theorem notMem_key_of_ne {c : Char} (hc : c ∈ separators) (hne : c ≠ '=') (hfield : IsBare field)
    (op : Operator) : c ∉ key field op :=
  notMem_key hc hfield (notMem_name (List.mem_append_left _ hc) hne op)

/-- The key of a filter is read as it was put together. -/
theorem read_key (hfield : ']' ∉ field.toList) (op : Operator) :
    Key.read (key field op) = keyOf [parameter, field, op.name] := by
  refine Key.read_text (by simp [keyOf, parameter]) (by simp [keyOf, parameter])
    fun segment hsegment => ?_
  rcases List.mem_pair.mp hsegment with rfl | rfl
  · exact hfield
  · exact notMem_name (by decide) (by decide) op

theorem root_key (hfield : ']' ∉ field.toList) (op : Operator) (value : List Char) :
    Pair.root ⟨key field op, value⟩ = parameter := by
  rw [Pair.root, read_key hfield, keyOf, String.ofList_toList]

/-! ### Reading the pair -/

/-- A key is read as it was before its characters were encoded, some of them or all. -/
theorem read_of_encodes (hd : IsHexDigits digit) {k text : List Char} (h : Encodes digit k text)
    (hequals : '=' ∉ text) (value : List Char) :
    Pair.read (text ++ '=' :: percentEncode digit value) = ⟨k, value⟩ := by
  rw [Pair.read, cutFirst_append hequals]
  simp only [h.percentDecode_eq hd, percentDecode_percentEncode hd]

/-- A text in which each `=` is encoded stands for the text itself. -/
theorem encodes_escapeEquals {cs : List Char} (hpercent : '%' ∉ cs) (hplus : '+' ∉ cs) :
    Encodes digit cs (escapeEquals digit cs) := by
  induction cs with
  | nil => exact .nil
  | cons c cs ih =>
      rw [List.mem_cons, not_or] at hpercent hplus
      rw [escapeEquals, List.flatMap_cons]
      split
      · exact .escaped c (ih hpercent.2 hplus.2)
      · exact .plain (Ne.symm hpercent.1) (Ne.symm hplus.1) (ih hpercent.2 hplus.2)

theorem equals_notMem_escapeEquals (hd : IsHexDigits digit) (cs : List Char) :
    '=' ∉ escapeEquals digit cs := by
  intro hmem
  obtain ⟨c, -, hc⟩ := List.mem_flatMap.mp hmem
  split at hc
  · exact notMem_percentEncode hd [c] (by decide) (by decide) hc
  · next hne => exact hne (List.mem_singleton.mp hc).symm

/-- **A pair that is encoded as a whole** is read, whatever its field is: no separator is left that
could cut it. -/
theorem read_encodedText (hd : IsHexDigits digit) (field : String) (op : Operator)
    (value : List Char) : Pair.read (encodedText digit field op value) = ⟨key field op, value⟩ :=
  read_pairText hd _

/-- A pair whose key has each `=` encoded is read, if the field has no separator. -/
theorem read_escapedText (hd : IsHexDigits digit) (hfield : IsBare field) (op : Operator)
    (value : List Char) :
    Pair.read (escapedText digit field op value) = ⟨key field op, value⟩ := by
  have hpercent : '%' ∉ key field op := notMem_key_of_ne (by decide) (by decide) hfield op
  have hplus : '+' ∉ key field op := notMem_key_of_ne (by decide) (by decide) hfield op
  exact read_of_encodes hd (encodes_escapeEquals hpercent hplus) (equals_notMem_escapeEquals hd _)
    value

/-- A pair with its key as it is is read, if there is no `=` in it. -/
theorem read_plainText (hd : IsHexDigits digit) (hfield : IsBare field) {op : Operator}
    (hop : '=' ∉ op.name.toList) (value : List Char) :
    Pair.read (plainText digit field op value) = ⟨key field op, value⟩ := by
  have hpercent : '%' ∉ key field op := notMem_key_of_ne (by decide) (by decide) hfield op
  have hplus : '+' ∉ key field op := notMem_key_of_ne (by decide) (by decide) hfield op
  exact read_of_encodes hd (encodes_self hpercent hplus) (notMem_key (by decide) hfield hop) value

/-- A name with a `=` in it is cut there, in the middle of its brackets. What is left of the key is
a root with a bracket that never closes. -/
theorem open_mem_root_plainText (hd : IsHexDigits digit) (hfield : IsBare field) {op : Operator}
    (hop : '=' ∈ op.name.toList) (value : List Char) :
    '[' ∈ (Pair.read (plainText digit field op value)).root.toList := by
  obtain ⟨before, after, hname, hbefore⟩ := List.eq_append_cons_of_mem hop
  have hnotMem {c : Char} (hc : c ∈ separators ++ ['[', ']']) (hne : c ≠ '=') : c ∉ before :=
    fun hmem => notMem_name hc hne op (hname ▸ List.mem_append_left _ hmem)
  have hkey : plainText digit field op value = (stem field ++ '[' :: before) ++
      '=' :: (after ++ ']' :: '=' :: percentEncode digit value) := by
    simp [plainText, key_eq, hname]
  have hequals : '=' ∉ stem field ++ '[' :: before := by
    simp [notMem_stem (c := '=') (by decide) hfield, hbefore]
  have hpercent : '%' ∉ stem field ++ '[' :: before := by
    simp [notMem_stem (c := '%') (by decide) hfield, hnotMem (c := '%') (by decide) (by decide)]
  have hplus : '+' ∉ stem field ++ '[' :: before := by
    simp [notMem_stem (c := '+') (by decide) hfield, hnotMem (c := '+') (by decide) (by decide)]
  -- What is left of the key is not encoded, and its last bracket does not close.
  have hdecode : percentDecode (stem field ++ '[' :: before) = stem field ++ '[' :: before :=
    (encodes_self hpercent hplus).percentDecode_eq hd
  rw [Pair.root, Pair.read, hkey, cutFirst_append hequals]
  simp only [hdecode]
  rw [Key.read_of_notMem (hnotMem (by decide) (by decide)), String.toList_ofList]
  exact List.mem_append_right _ List.mem_cons_self

/-! ### Reading the query string -/

theorem root_ne_parameter {p : Pair} (h : '[' ∈ p.root.toList) (f : Facet) :
    p.root ≠ f.parameter := by
  intro hroot
  rw [hroot] at h
  revert h
  cases f <;> decide

/-- There is no ampersand in a pair, so it is one text of the query string. -/
theorem texts_plainText (hd : IsHexDigits digit) (hfield : IsBare field) (op : Operator)
    (value : List Char) :
    texts (String.ofList (plainText digit field op value)) = [plainText digit field op value] := by
  have hkey : '&' ∉ key field op := notMem_key_of_ne (by decide) (by decide) hfield op
  have hvalue : '&' ∉ percentEncode digit value :=
    notMem_percentEncode hd _ (by decide) (by decide)
  refine texts_ofList ?_ ?_
  · simp [plainText, hkey, hvalue]
  · simp [plainText, key_eq, stem, parameter]

theorem texts_encodedText (hd : IsHexDigits digit) (field : String) (op : Operator)
    (value : List Char) :
    texts (String.ofList (encodedText digit field op value))
      = [encodedText digit field op value] := by
  have hkey : key field op ≠ [] := by simp [key_eq]
  obtain ⟨rest, hrest⟩ := percentEncode_of_ne_nil digit hkey
  refine texts_ofList (ampersand_notMem_pairText hd _) ?_
  simp [encodedText, pairText, hrest]

/-- `ReadsPlainly digit field op value` says how a filter may be written. -/
structure ReadsPlainly (digit : Nat → Char) (field : String) (op : Operator)
    (value : List Char) : Prop where
  /-- By itself it may have its key as it is if the operator has no `=` in its name. -/
  alone : read (String.ofList (plainText digit field op value)) =
      read (String.ofList (encodedText digit field op value)) ↔ '=' ∉ op.name.toList
  /-- So it may among others. -/
  among : '=' ∉ op.name.toList → ∀ {query query' : String},
    Swaps (plainText digit field op value) (encodedText digit field op value) query query' →
      read query' = read query
  /-- With its `=` encoded the rest of the key may be as it is, whatever the operator. -/
  escaped : ∀ {query query' : String},
    Swaps (escapedText digit field op value) (encodedText digit field op value) query query' →
      read query' = read query
  /-- Without that the query is what it would be if there was no such pair. -/
  lost : '=' ∈ op.name.toList → ∀ {query query' : String},
    Swaps (plainText digit field op value) [] query query' →
      ∀ (schema : Schema) {β : Type} (b : Backend β) (start : β),
        Request.query ⟨read query', schema⟩ b start = Request.query ⟨read query, schema⟩ b start

/-- **A filter written plainly** is the filter that it seems to be, unless its operator has a `=`
in its name. -/
theorem readsPlainly (hd : IsHexDigits digit) (hfield : IsBare field) (op : Operator)
    (value : List Char) : ReadsPlainly digit field op value where
  alone := by
    refine ⟨fun heq hop => ?_, fun hop => ?_⟩
    · -- The pair that is cut short has a root with a bracket, and the other one that of the filter.
      have hopen := open_mem_root_plainText hd hfield hop value
      have hkey : (Pair.read (plainText digit field op value)).key ≠ [] := by
        intro hkey
        rw [Pair.root, hkey] at hopen
        exact List.not_mem_nil hopen
      have hkeys := congrArg Dictionary.keys heq
      rw [keys_read_of_texts (texts_plainText hd hfield op value) hkey,
        keys_read_of_texts (texts_encodedText hd field op value)
          (by simp [read_encodedText hd, key_eq]),
        read_encodedText hd, root_key (hfield ']' (by decide)), List.singleton_inj] at hkeys
      exact root_ne_parameter hopen .filter hkeys
    · refine (read_eq_of_swaps ?_ ⟨[], [], texts_plainText hd hfield op value,
        texts_encodedText hd field op value⟩).symm
      rw [read_encodedText hd, read_plainText hd hfield hop]
  among hop _ _ h := by
    refine read_eq_of_swaps ?_ h
    rw [read_encodedText hd, read_plainText hd hfield hop]
  escaped h := by
    refine read_eq_of_swaps ?_ h
    rw [read_encodedText hd, read_escapedText hd hfield]
  lost hop _ _ h _ _ b start := by
    refine Request.query_congr b start rfl fun f _ => find?_ofPairs_congr ?_
    exact filter_pairs_of_swaps
      (root_ne_parameter (open_mem_root_plainText hd hfield hop value) f) h

/-- The operator has a blank in its name and the field a colon, neither of which needs to be
encoded. -/
theorem readsPlainly_spaced :
    IsHexDigits hexDigit ∧ IsBare "a:b" ∧ '=' ∉ Operator.isNotIn.name.toList ∧
      read (String.ofList (plainText hexDigit "a:b" .isNotIn "é".toList)) =
        read (String.ofList (encodedText hexDigit "a:b" .isNotIn "é".toList)) := by
  have hfield : IsBare "a:b" := by decide
  have hop : '=' ∉ Operator.isNotIn.name.toList := by decide
  exact ⟨isHexDigits_hexDigit, hfield, hop,
    (readsPlainly isHexDigits_hexDigit hfield .isNotIn "é".toList).alone.mpr hop⟩

/-- The pair `filter[a][>=]=%31` has the key `filter[a][>`. -/
theorem not_forall_read_plainText :
    ¬ ∀ (field : String) (op : Operator) (value : List Char), field ≠ "" → IsBare field →
      read (String.ofList (plainText hexDigit field op value)) =
        read (String.ofList (encodedText hexDigit field op value)) := by
  intro h
  have hne : read (String.ofList (plainText hexDigit "a" .greaterOrEqual "1".toList)) ≠
      read (String.ofList (encodedText hexDigit "a" .greaterOrEqual "1".toList)) := by
    decide +kernel
  exact hne (h "a" .greaterOrEqual "1".toList (by decide) (by decide))

end Filter

end FacetQuery
