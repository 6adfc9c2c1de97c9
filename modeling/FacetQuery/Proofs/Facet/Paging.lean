import FacetQuery.Proofs.Facet.Basic
import FacetQuery.Proofs.Sql.Backend

/-!
# Facet — The page that is asked for

* `Asked r n`: the page `n` is the request's, or the schema's if it has none.
* `asked_of_validate`: a request that passes asks for some page, and its own is at least one.
* `toNat_offset`: how many rows stand before a page.
* `apply_ok`, `run_ok`: over SQL, applying the listed parameters sets the limit and the offset, and
  so does a run that succeeds.
-/

namespace FacetQuery

open Json

/-- A value is a number of 64 bits if it is the whole number of that value. -/
theorem Json.Value.asUInt64?_eq_some_iff {v : Value} {n : UInt64} :
    v.asUInt64? = some n ↔ v = .ofUInt64 n := by
  constructor
  · intro h
    cases v with
    | number x =>
        cases x with
        | whole i =>
            obtain ⟨i, lower, upper⟩ := i
            simp only [asUInt64?, Number.toUInt64?, Integer.toUInt64?] at h
            split at h
            · next hi =>
                cases h
                have hn : (UInt64.ofNat i.toNat).toNat = i.toNat :=
                  UInt64.toNat_ofNat_of_lt' (by rw [UInt64.size]; omega)
                simp only [ofUInt64, Number.ofUInt64, Integer.ofUInt64, hn, Int.toNat_of_nonneg hi]
            · cases h
        | real _ _ => cases h
    | _ => cases h
  · rintro rfl
    exact asUInt64?_ofUInt64 n

/-- The rows before a page, as far as 64 bits count. -/
theorem Page.toNat_offset (size n : UInt64) :
    (numbered size n).offset.toNat = min ((n.toNat - 1) * size.toNat) (UInt64.size - 1) := by
  have h : min ((n.toNat - 1) * size.toNat) 0xFFFFFFFFFFFFFFFF < UInt64.size := by
    rw [UInt64.size]; omega
  exact UInt64.toNat_ofNat_of_lt' h

namespace Paging

/-- `Asked r n` says that `n` is the page of the request, or of the schema if it has none. -/
def Asked (r : Request) (n : UInt64) : Prop :=
  match r.param? parameter with
  | some v => v = .ofUInt64 n
  | none   => n = r.schema.page.defaultNumber

/-- A request asks for one page: its own number, or that of the schema where it has none. -/
theorem Asked.unique {r : Request} {n m : UInt64} (h : Asked r n) (h' : Asked r m) : n = m := by
  unfold Asked at h h'
  split at h
  · next v hv =>
      rw [hv] at h'
      subst h
      have hs : some n = some m := by
        rw [← Value.asUInt64?_ofUInt64 n, Value.asUInt64?_eq_some_iff.mpr h']
      exact Option.some.inj hs
  · next hn =>
      rw [hn] at h'
      exact h.trans h'.symm

/-- **A request that passes** asks for some page, and this is the number that is listed. One that is
refused need not ask for any. -/
theorem asked_of_validate {v : Validator} {r : Request} (h : validate v r = .ok ()) :
    ∃ n, Asked r n ∧ number r = .ofUInt64 n := by
  unfold validate at h
  unfold Asked number
  split at h
  · next hn => exact ⟨r.schema.page.defaultNumber, by rw [hn], by rw [hn]; rfl⟩
  · next value hv =>
      obtain ⟨-, -, h⟩ := bind_eq_ok_iff.mp h
      split at h
      · next n hn =>
          have hvalue := Value.asUInt64?_eq_some_iff.mp hn
          exact ⟨n, by rw [hv]; exact hvalue, by rw [hv]; exact hvalue⟩
      · cases h

/-- A page with a number is applied by one call. -/
theorem apply_flat {β : Type} (b : Backend β) {r : Request} {n : UInt64}
    (hn : number r = .ofUInt64 n) :
    apply b (flat r) = b.page (.numbered r.schema.page.defaultSize n) := by
  simp [apply, flat, Dictionary.find?, hn]

/-- A page that passes is never refused over SQL. -/
theorem fst_apply_flat (ops : List Operator) {v : Validator} {r : Request}
    (h : validate v r = .ok ()) (q : Sql.Select) :
    ((apply (.sqlWith ops) (flat r)).run q).1 = .ok () := by
  obtain ⟨n, -, hn⟩ := asked_of_validate h
  rw [apply_flat _ hn, Backend.run_page_sqlWith]

/-- Over SQL, the page that is listed becomes the limit and the offset. -/
theorem apply_ok {v : Validator} {r : Request} {n : UInt64} (hn : number r = .ofUInt64 n)
    {q q' : Sql.Select} (h : (apply (Backend.ofDialect v) (flat r)).run q = (.ok (), q')) :
    q' = q.limitedTo ⟨some r.schema.page.defaultSize,
      some (Page.numbered r.schema.page.defaultSize n).offset⟩ := by
  rw [apply_flat _ hn] at h
  exact (Backend.run_page_ok_iff.mp h).2

/-- **A run over SQL that succeeds** sets the limit and the offset to the page that is asked for,
unless paging is switched off. -/
theorem run_ok {v : Validator} {r : Request} {q q' : Sql.Select}
    (h : (Facet.page.run (Backend.ofDialect v) r).run q = (.ok (), q')) :
    r.schema.page.isEnabled = false ∧ q' = q ∨
    r.schema.page.isEnabled = true ∧ ∃ n, Asked r n ∧
      q' = q.limitedTo ⟨some r.schema.page.defaultSize,
        some (Page.numbered r.schema.page.defaultSize n).offset⟩ := by
  rcases Facet.run_ok_iff.mp h with ⟨hoff, rfl⟩ | ⟨hon, hc, ha⟩
  · exact .inl ⟨hoff, rfl⟩
  · obtain ⟨n, hn, hnum⟩ := asked_of_validate hc
    exact .inr ⟨hon, n, hn, apply_ok hnum ha⟩

end Paging

end FacetQuery
