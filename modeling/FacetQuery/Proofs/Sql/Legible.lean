import FacetQuery.Proofs.Decimal.Integer
import FacetQuery.Proofs.Sql.Tokens
import Mathlib.Data.List.Forall2

/-!
# Sql — Texts that can be read

Nothing marks the end of a part of a query: not the end of a number, of a condition or of a clause.
A part can be read off a text if what may stand behind it does not look like more of it.

* `Ends words ts`: what stands behind is nothing, or begins with one of `words`; `Marks text words`:
  it never begins with `text`.
* `Legible w words R`: written by `w` in front of such a text, two things can be told apart as far
  as `R` goes, and so can the texts behind them.
* `Legible.append`, `Legible.many`, `Legible.chain`: one behind the other, many of them with a text
  between, many of them as a clause.
* `spelled_append_inj`: a word is read up to the first character that is no numeral.
-/

namespace FacetQuery.Sql

variable {α β : Type}

/-! ### What may stand behind -/

/-- `Ends words ts` says that `ts` is empty or begins with one of `words`. -/
def Ends (words : List String) (ts : List Lexeme) : Prop :=
  ts = [] ∨ ∃ word ∈ words, ∃ more, ts = spelled word ++ more

/-- `Apart s t` says that neither text begins with the other. -/
def Apart (s t : String) : Prop := ¬ s.toList <+: t.toList ∧ ¬ t.toList <+: s.toList

instance (s t : String) : Decidable (Apart s t) := inferInstanceAs (Decidable (_ ∧ _))

/-- `Marks text words` says that nothing that ends with `words` begins with `text`. -/
def Marks (text : String) (words : List String) : Prop :=
  text ≠ "" ∧ ∀ word ∈ words, Apart word text

instance (text : String) (words : List String) : Decidable (Marks text words) :=
  @instDecidableAnd _ _ inferInstance (List.decidableBAll _ words)

theorem ends_nil (words : List String) : Ends words [] := .inl rfl

theorem ends_spelled {words : List String} {word : String} (h : word ∈ words) (ts : List Lexeme) :
    Ends words (spelled word ++ ts) :=
  .inr ⟨word, h, ts, rfl⟩

theorem Ends.mono {words words' : List String} {ts : List Lexeme} (h : Ends words ts)
    (hsub : words ⊆ words') : Ends words' ts := by
  rcases h with rfl | ⟨word, hword, more, rfl⟩
  · exact ends_nil _
  · exact ends_spelled (hsub hword) more

/-- Spelling keeps apart what is apart: a prefix among the tokens is a prefix among the characters.
-/
theorem isPrefix_of_spelled_isPrefix {s t : String} (h : spelled s <+: spelled t) :
    s.toList <+: t.toList := by
  have back (u : String) :
      (spelled u).filterMap (fun | .outside c => some c | _ => none) = u.toList := by
    simp [spelled, List.filterMap_map]
  rw [← back s, ← back t]
  exact h.filterMap _

/-- Texts of which neither begins with the other differ whatever stands behind them. -/
theorem Apart.spelled_append_ne {s t : String} (h : Apart s t) (ts us : List Lexeme) :
    spelled s ++ ts ≠ spelled t ++ us := by
  intro heq
  have hs : spelled s <+: spelled t ++ us := heq ▸ List.prefix_append ..
  rcases List.prefix_or_prefix_of_prefix hs (List.prefix_append ..) with hp | hp
  · exact h.1 (isPrefix_of_spelled_isPrefix hp)
  · exact h.2 (isPrefix_of_spelled_isPrefix hp)

theorem Marks.ne_spelled_append {text : String} {words : List String} (h : Marks text words)
    {ts : List Lexeme} (hts : Ends words ts) (us : List Lexeme) : ts ≠ spelled text ++ us := by
  rcases hts with rfl | ⟨word, hword, more, rfl⟩
  · intro heq
    have hnil := (List.append_eq_nil_iff.mp heq.symm).1
    exact h.1 (String.toList_eq_nil_iff.mp (List.map_eq_nil_iff.mp hnil))
  · exact (h.2 word hword).spelled_append_ne more us

/-! ### Reading -/

/-- `Legible w words R` says that of two things which `w` writes in front of texts that end with
`words`, the text tells what they are up to `R`, and where they end. -/
def Legible (w : α → List Piece) (words : List String) (R : α → α → Prop) : Prop :=
  ∀ ⦃a a' : α⦄ ⦃ts ts' : List Lexeme⦄, Ends words ts → Ends words ts' →
    tokens (w a) ++ ts = tokens (w a') ++ ts' → R a a' ∧ ts = ts'

/-- `Leads w words words'` says that what `w` writes begins with one of `words'`, also when nothing
but one of `words` stands behind it. -/
def Leads (w : α → List Piece) (words words' : List String) : Prop :=
  ∀ (a : α) ⦃ts : List Lexeme⦄, Ends words ts → Ends words' (tokens (w a) ++ ts)

theorem leads_plain_cons {words words' : List String} {text : String} (h : text ∈ words')
    (w : α → List Piece) : Leads (fun a => .plain text :: w a) words words' := by
  intro a ts _
  rw [tokens_cons, List.append_assoc]
  exact ends_spelled h _

/-- What may be empty leads with the words of what comes after it, besides its own. -/
theorem Leads.append {v : β → List Piece} {w : α → List Piece} {words words' words'' : List String}
    (hv : Leads v words words') (hw : Leads w words' words'') :
    Leads (fun x : α × β => w x.1 ++ v x.2) words words'' := by
  intro x ts hts
  rw [tokens_append, List.append_assoc]
  exact hw x.1 (hv x.2 hts)

namespace Legible

variable {w : α → List Piece} {v : β → List Piece} {words words' : List String}
  {R : α → α → Prop} {S : β → β → Prop}

/-- **One behind the other.** Two things can be told apart if the second leads with words that the
first can be closed by. -/
theorem append (hw : Legible w words' R) (hv : Legible v words S) (hleads : Leads v words words') :
    Legible (fun x : α × β => w x.1 ++ v x.2) words fun x y => R x.1 y.1 ∧ S x.2 y.2 := by
  intro x y ts ts' hts hts' h
  simp only [tokens_append, List.append_assoc] at h
  obtain ⟨hR, h⟩ := hw (hleads x.2 hts) (hleads y.2 hts') h
  obtain ⟨hS, h⟩ := hv hts hts' h
  exact ⟨⟨hR, hS⟩, h⟩

theorem plain_cons (hw : Legible w words R) (text : String) :
    Legible (fun a => .plain text :: w a) words R := by
  intro a a' ts ts' hts hts' h
  simp only [tokens_cons, List.append_assoc] at h
  exact hw hts hts' (List.append_cancel_left h)

/-- A text behind it closes it. -/
theorem concat {text : String} (hw : Legible w [text] R) :
    Legible (fun a => w a ++ [.plain text]) words R := by
  intro a a' ts ts' _ _ h
  have hword : text ∈ [text] := List.mem_singleton_self text
  simp only [tokens_append, tokens_cons, tokens_nil, Piece.tokens, List.append_nil,
    List.append_assoc] at h
  obtain ⟨hR, h⟩ := hw (ends_spelled hword ts) (ends_spelled hword ts') h
  exact ⟨hR, List.append_cancel_left h⟩

end Legible

/-! ### Many of them -/

/-- `many sep pss` are groups of pieces, each behind the text `sep`. -/
def many (sep : String) (pss : List (List Piece)) : List Piece :=
  pss.flatMap fun ps => .plain sep :: ps

/-- `chain intro sep pss` are groups of pieces behind the text `intro`, with `sep` between them; no
groups leave no trace. -/
def chain (intro sep : String) : List (List Piece) → List Piece
  | []        => []
  | ps :: pss => .plain intro :: (ps ++ many sep pss)

theorem many_cons (sep : String) (ps : List Piece) (pss : List (List Piece)) :
    many sep (ps :: pss) = .plain sep :: (ps ++ many sep pss) := rfl

theorem tokens_many_cons_append (sep : String) (ps : List Piece) (pss : List (List Piece))
    (ts : List Lexeme) :
    tokens (many sep (ps :: pss)) ++ ts =
      spelled sep ++ (tokens ps ++ (tokens (many sep pss) ++ ts)) := by
  rw [many_cons, tokens_cons, tokens_append, List.append_assoc, List.append_assoc]
  rfl

theorem tokens_chain_cons_append (intro sep : String) (ps : List Piece) (pss : List (List Piece))
    (ts : List Lexeme) :
    tokens (chain intro sep (ps :: pss)) ++ ts =
      spelled intro ++ (tokens ps ++ (tokens (many sep pss) ++ ts)) := by
  rw [chain, tokens_cons, tokens_append, List.append_assoc, List.append_assoc]
  rfl

/-- Groups with commas between them are the first group and then the others, each behind a comma. -/
theorem separated_cons (ps : List Piece) (pss : List (List Piece)) :
    separated (ps :: pss) = ps ++ many ", " pss := by
  induction pss generalizing ps with
  | nil => exact (List.append_nil ps).symm
  | cons qs pss ih => rw [separated_cons_cons, ih, many_cons]

section Many

variable {w : α → List Piece} {words words' : List String} {R : α → α → Prop} {intro sep : String}

/-- The groups lead with their separator, or with what comes behind when there are none. -/
theorem leads_many (hsep : sep ∈ words') (hsub : words ⊆ words') :
    Leads (fun as : List α => many sep (as.map w)) words words' := by
  intro as ts hts
  cases as with
  | nil       => exact hts.mono hsub
  | cons a as => exact .inr ⟨sep, hsep, _, tokens_many_cons_append ..⟩

/-- A clause leads with its introduction, or with what comes behind. -/
theorem leads_chain (hintro : intro ∈ words') (hsub : words ⊆ words') :
    Leads (fun as : List α => chain intro sep (as.map w)) words words' := by
  intro as ts hts
  cases as with
  | nil       => exact hts.mono hsub
  | cons a as => exact .inr ⟨intro, hintro, _, tokens_chain_cons_append ..⟩

/-- Groups are read one by one, for none of them can be mistaken for the end. Induction on both
lists at once. -/
theorem Legible.many (hw : Legible w words' R) (hsep : sep ∈ words') (hsub : words ⊆ words')
    (hmark : Marks sep words) :
    Legible (fun as : List α => many sep (as.map w)) words (List.Forall₂ R) := by
  intro as as' ts ts' hts hts' h
  induction as generalizing as' with
  | nil =>
      cases as' with
      | nil         => exact ⟨.nil, h⟩
      | cons a' as' =>
          exact absurd (h.trans (tokens_many_cons_append ..)) (hmark.ne_spelled_append hts _)
  | cons a as ih =>
      have h := (tokens_many_cons_append ..).symm.trans h
      cases as' with
      | nil         => exact absurd h.symm (hmark.ne_spelled_append hts' _)
      | cons a' as' =>
          have h := List.append_cancel_left (h.trans (tokens_many_cons_append ..))
          have leads := leads_many (w := w) hsep hsub
          obtain ⟨hR, h⟩ := hw (leads as hts) (leads as' hts') h
          obtain ⟨hRs, h⟩ := ih h
          exact ⟨.cons hR hRs, h⟩

/-- A clause is told from its absence by its introduction, and its groups are read one by one. So
the two lists have one length, and their items agree in pairs. -/
theorem Legible.chain (hw : Legible w words' R) (hsep : sep ∈ words') (hsub : words ⊆ words')
    (hmark : Marks sep words) (hintro : Marks intro words) :
    Legible (fun as : List α => chain intro sep (as.map w)) words (List.Forall₂ R) := by
  intro as as' ts ts' hts hts' h
  cases as with
  | nil =>
      cases as' with
      | nil         => exact ⟨.nil, h⟩
      | cons a' as' =>
          exact absurd (h.trans (tokens_chain_cons_append ..)) (hintro.ne_spelled_append hts _)
  | cons a as =>
      cases as' with
      | nil         =>
          exact absurd (h.symm.trans (tokens_chain_cons_append ..))
            (hintro.ne_spelled_append hts' _)
      | cons a' as' =>
          have list := (hw.append (hw.many hsep hsub hmark) (leads_many hsep hsub)).plain_cons intro
          obtain ⟨⟨hR, hRs⟩, h⟩ := @list (a, as) (a', as') _ _ hts hts' h
          exact ⟨.cons hR hRs, h⟩

end Many

/-! ### Words and numbers -/

/-- `Delimits word` says that `word` begins with a character that is no numeral. -/
def Delimits (word : String) : Prop := word.toList.head?.any (!isNumeral ·) = true

instance (word : String) : Decidable (Delimits word) := inferInstanceAs (Decidable (_ = true))

/-- Behind a word of numerals stands no further numeral, where the words that may follow begin with
none. -/
theorem Ends.isNumeral_eq_false {words : List String} {ts : List Lexeme} (h : Ends words ts)
    (hwords : ∀ word ∈ words, Delimits word) {c : Char} {us : List Lexeme}
    (hts : ts = .outside c :: us) : isNumeral c = false := by
  rcases h with rfl | ⟨word, hword, more, rfl⟩
  · cases hts
  · have hhead := hwords word hword
    rw [Delimits] at hhead
    rw [spelled] at hts
    cases hcs : word.toList with
    | nil       => rw [hcs] at hhead; cases hhead
    | cons d cs =>
        rw [hcs] at hts hhead
        cases hts
        simpa using hhead

/-- A word of numerals is read up to its end, which is where the text goes on with something that is
no numeral. -/
theorem spelled_append_inj {words : List String} (hwords : ∀ word ∈ words, Delimits word)
    {s s' : String} (hs : ∀ c ∈ s.toList, isNumeral c = true)
    (hs' : ∀ c ∈ s'.toList, isNumeral c = true) {ts ts' : List Lexeme} (hts : Ends words ts)
    (hts' : Ends words ts') (h : spelled s ++ ts = spelled s' ++ ts') : s = s' ∧ ts = ts' := by
  suffices hchars : s.toList = s'.toList ∧ ts = ts' from ⟨String.toList_inj.mp hchars.1, hchars.2⟩
  rw [spelled, spelled] at h
  generalize s.toList = cs at *
  generalize s'.toList = cs' at *
  induction cs generalizing cs' with
  | nil =>
      cases cs' with
      | nil        => exact ⟨rfl, h⟩
      | cons c' cs' =>
          -- One word has ended, and a numeral stands behind it: no word that may follow begins so.
          have hfalse := hts.isNumeral_eq_false hwords h
          rw [hs' c' List.mem_cons_self] at hfalse
          cases hfalse
  | cons c cs ih =>
      cases cs' with
      | nil =>
          have hfalse := hts'.isNumeral_eq_false hwords h.symm
          rw [hs c List.mem_cons_self] at hfalse
          cases hfalse
      | cons c' cs' =>
          obtain ⟨hc, h⟩ := List.cons.inj h
          obtain ⟨hcs, h⟩ := ih (fun d hd => hs d (List.mem_cons_of_mem c hd)) cs'
            (fun d hd => hs' d (List.mem_cons_of_mem c' hd)) h
          exact ⟨by rw [Lexeme.outside.inj hc, hcs], h⟩

/-- **A number can be read** in front of words that begin with no numeral. -/
theorem legible_natural {words : List String} (hwords : ∀ word ∈ words, Delimits word) :
    Legible (fun n : UInt64 => [.plain (naturalText n.toNat)]) words Eq := by
  intro n n' ts ts' hts hts' h
  have numeral (m : Nat) : ∀ c ∈ (naturalText m).toList, isNumeral c = true := fun c hc =>
    isNumeral_of_mem_digits (toList_naturalText m ▸ hc)
  simp only [tokens_cons, tokens_nil, Piece.tokens, List.append_nil] at h
  obtain ⟨htext, h⟩ := spelled_append_inj hwords (numeral _) (numeral _) hts hts' h
  exact ⟨UInt64.toNat_inj.mp (naturalText_injective htext), h⟩

end FacetQuery.Sql
