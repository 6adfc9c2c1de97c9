import FacetQuery.Backend.Recorder
import FacetQuery.Proofs.Facet.Paging
import FacetQuery.Proofs.Schema.Accepted

/-!
# Facet — The pages that are accepted

The number of a page comes from the request or from the schema.  It is listed with the size and the
offset, and read back from the list when the page is applied, where the offset is worked out anew.

* `Paging.Accepts v r`: the request has no page, or one that counts from one.
* `Paging.Chosen r p`: the rows `p` are those of the page of `r`, and are listed as such.
* `Paging.Pages b r`: a run turns to these rows once, or to none; `Paging.pages_of_read`: so does
  any run for a schema that was read from a text.
-/

namespace FacetQuery.Paging

open Json

/-- `Accepts v r` says that `r` has no page, or that its page is a whole number from one to the
greatest that 64 bits hold, and pages are supported. -/
def Accepts (v : Validator) (r : Request) : Prop :=
  r.param? parameter = none ∨
    v.supports .page = true ∧ ∃ n : UInt64, 1 ≤ n ∧ r.param? parameter = some (.ofUInt64 n)

/-- `Chosen r p` says that `p` is the page of `r`. -/
structure Chosen (r : Request) (p : Page) : Prop where
  size : p.size = r.schema.page.defaultSize
  /-- The request's number, or that of the schema if the request has none. -/
  number : Asked r p.number
  offset : p.offset.toNat = min ((p.number.toNat - 1) * p.size.toNat) (UInt64.size - 1)
  one_le_size : 1 ≤ p.size
  one_le_number : 1 ≤ p.number
  flat : Facet.page.flat r =
    [("size", .ofUInt64 p.size), ("number", .ofUInt64 p.number), ("offset", .ofUInt64 p.offset)]
  flatPrefixed : Facet.page.flatPrefixed r =
    [("page:size", .ofUInt64 p.size), ("page:number", .ofUInt64 p.number),
     ("page:offset", .ofUInt64 p.offset)]

/-! ### Checking -/

variable {v : Validator} {r : Request} {n : UInt64}

/-- The backend takes any number for a page; whether it counts from one is checked by the facet. -/
theorem check_page_eq_ok_iff {value : Value} :
    v.check .page parameter value = .ok () ↔
      v.supports .page = true ∧ ∃ x, value = .number x := by
  rw [Validator.check_eq_ok_iff]
  refine and_congr_right fun _ => ?_
  cases value <;> simp [ValueShape.ofOperation, ValueShape.admits]

/-- A page passes if it is accepted: a number that 64 bits hold, from one on, where the backend has
pages. -/
theorem validate_eq_ok_iff : validate v r = .ok () ↔ Accepts v r := by
  rw [validate, Accepts]
  rcases r.param? parameter with _ | value
  · simp
  -- The shape admits every number, the second check only those that count from one.
  · simp only [check_bind_eq_ok_iff, check_page_eq_ok_iff, reduceCtorEq, false_or,
      Option.some.injEq]
    constructor
    · rintro ⟨⟨hsupports, -⟩, h⟩
      split at h
      · next n hn =>
          split at h
          · next hone => exact ⟨hsupports, n, hone, Value.asUInt64?_eq_some_iff.mp hn⟩
          · cases h
      · cases h
    · rintro ⟨hsupports, n, hone, rfl⟩
      refine ⟨⟨hsupports, _, rfl⟩, ?_⟩
      simp [hone]

/-- The number of a page that is accepted, or of the schema, is at least one. -/
theorem Accepts.exists_asked (h : Accepts v r) (hdefault : 1 ≤ r.schema.page.defaultNumber) :
    ∃ n, Asked r n ∧ number r = .ofUInt64 n ∧ 1 ≤ n := by
  unfold Asked number
  rcases h with h | ⟨-, n, hn, h⟩
  · exact ⟨_, by rw [h], by rw [h]; rfl, hdefault⟩
  · exact ⟨n, by rw [h], by rw [h]; rfl, hn⟩

/-! ### Listing -/

/-- The size, the number and the offset are listed, in this order. -/
theorem flat_eq (hn : number r = .ofUInt64 n) :
    flat r = [("size", .ofUInt64 r.schema.page.defaultSize), ("number", .ofUInt64 n),
      ("offset", .ofUInt64 (Page.numbered r.schema.page.defaultSize n).offset)] := by
  simp [flat, hn]

/-- The page with the number that is asked for is the one that is chosen, and what is listed reads
back as this page. -/
theorem chosen_numbered (hs : r.schema.Accepted) (hon : Facet.page.isEnabled r.schema = true)
    (ha : Asked r n) (hn : number r = .ofUInt64 n) (hone : 1 ≤ n) :
    Chosen r (.numbered r.schema.page.defaultSize n) where
  size := rfl
  number := ha
  offset := Page.toNat_offset _ n
  one_le_size := hs.size
  one_le_number := hone
  flat := (if_pos hon).trans (flat_eq hn)
  flatPrefixed := by
    have hflat : Facet.page.flat r = _ := (if_pos hon).trans (flat_eq hn)
    rw [Facet.flatPrefixed, hflat]
    rfl

/-! ### Running -/

variable {β : Type} {b : Backend β}

/-- `Pages b r` says what a run for the page of `r` does. -/
structure Pages (b : Backend β) (r : Request) : Prop where
  /-- If the backend never fails to page, the run succeeds exactly if the page is accepted. -/
  succeeds_iff : (∀ p q, ((b.page p).run q).1 = .ok ()) → ∀ q,
    ((Facet.page.run b r).run q).1 = .ok () ↔ Accepts b.validator r
  /-- A page that is accepted makes one call, and nothing else. -/
  calls : Accepts b.validator r → ∃ p, Chosen r p ∧ Facet.page.run b r = b.page p
  /-- Any other makes no call. -/
  untouched : ¬ Accepts b.validator r → ∃ e, Facet.page.run b r = Build.ofExcept (.error e)

/-- A page that is accepted is chosen, and turned to by one call. -/
theorem exists_run_of_accepts (hs : r.schema.Accepted)
    (hon : Facet.page.isEnabled r.schema = true) (h : Accepts b.validator r) :
    ∃ p, Chosen r p ∧ Facet.page.run b r = b.page p := by
  obtain ⟨n, ha, hn, hone⟩ := h.exists_asked hs.number
  refine ⟨_, chosen_numbered hs hon ha hn hone, ?_⟩
  rw [Facet.run_of_check hon (validate_eq_ok_iff.mpr h)]
  exact apply_flat b hn

theorem run_of_not_accepts (hon : Facet.page.isEnabled r.schema = true)
    (h : ¬ Accepts b.validator r) : ∃ e, Facet.page.run b r = Build.ofExcept (.error e) := by
  rcases hv : validate b.validator r with e | ⟨⟩
  · exact ⟨e, Facet.run_of_check_error hon hv⟩
  · exact absurd (validate_eq_ok_iff.mp hv) h

/-- **A run for a schema that was read** turns to the page that is chosen, or refuses it. Such a
schema has a page size and number from one on. -/
theorem pages_of_read {text : String} (hread : Schema.read text = .ok r.schema)
    (hon : Facet.page.isEnabled r.schema = true) (b : Backend β) : Pages b r where
  succeeds_iff hpage q := by
    constructor
    · intro hok
      by_contra hnot
      obtain ⟨e, he⟩ := run_of_not_accepts hon hnot
      rw [he] at hok
      cases hok
    · intro h
      obtain ⟨p, -, hrun⟩ := exists_run_of_accepts (Schema.accepted_of_read hread) hon h
      rw [hrun]
      exact hpage p q
  calls := exists_run_of_accepts (Schema.accepted_of_read hread) hon
  untouched := run_of_not_accepts hon

/-- Asks for the third page, before which there are more rows than 64 bits count. -/
def distant : Request where
  params := [("page", .ofUInt64 3)]
  schema := { Schema.standard with page := ⟨true, 0xC000000000000000, 7⟩ }

/-- Page three would begin behind all rows that 64 bits count, and its offset stays at the last of
them. -/
theorem pages_of_read_distant :
    Schema.read "\x7b\"page\": \x7b\"defaultSize\": 13835058055282163712, \"defaultNumber\": 7\x7d\x7d"
        = .ok distant.schema ∧
      Facet.page.isEnabled distant.schema = true ∧
      (Facet.page.run (.recorder .full) distant).run []
        = (.ok (), [.page ⟨0xC000000000000000, 3, 0xFFFFFFFFFFFFFFFF⟩]) ∧
      Pages (.recorder .full) distant :=
  have hread : Schema.read
      "\x7b\"page\": \x7b\"defaultSize\": 13835058055282163712, \"defaultNumber\": 7\x7d\x7d"
        = .ok distant.schema := by decide +kernel
  ⟨hread, rfl, rfl, pages_of_read hread rfl (.recorder .full)⟩

end FacetQuery.Paging
