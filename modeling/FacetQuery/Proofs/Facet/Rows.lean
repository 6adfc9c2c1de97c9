import FacetQuery.Proofs.Facet.Paging
import Mathlib.Order.MinMax

/-!
# Facet — The rows of a page

Rows are counted from zero.  A page shows as many rows as its size, behind its offset, which stops
at the greatest 64-bit number instead of passing it.  Far pages share that offset, and none of them
shows a row before it.

* `Page.Shows p row`: the page `p` shows this row.
* `Page.shows_numbered_iff`: before the greatest offset, a row is on the page that its quotient by
  the size says, whether or not the offsets of other pages have stopped.
* `Page.Tiles size`: the pages of this size show every such row once, in order; `Page.tiles`: so do
  pages of any size but zero.
-/

namespace FacetQuery.Page

/-- `Shows p row` says that `row` is one of the rows of `p`. -/
def Shows (p : Page) (row : Nat) : Prop :=
  p.offset.toNat ≤ row ∧ row < p.offset.toNat + p.size.toNat

variable {size m n : UInt64} {row : Nat}

/-- An offset that has stopped lies behind every row that counts, so such a row tells the offset of
its page exactly. -/
theorem shows_numbered_iff (hsize : 1 ≤ size) (hn : 1 ≤ n) (hrow : row < UInt64.size - 1) :
    (numbered size n).Shows row ↔ row / size.toNat + 1 = n.toNat := by
  have hs : 0 < size.toNat := UInt64.le_iff_toNat_le.mp hsize
  have hn : 0 < n.toNat := UInt64.le_iff_toNat_le.mp hn
  have before : (numbered size n).offset.toNat ≤ row ↔ (n.toNat - 1) * size.toNat ≤ row := by
    rw [toNat_offset, min_le_iff, or_iff_left (Nat.not_le.mpr hrow)]
  have quotient : row / size.toNat + 1 = n.toNat ↔
      (n.toNat - 1) * size.toNat ≤ row ∧ row < (n.toNat - 1) * size.toNat + size.toNat := by
    have hdiv := Nat.div_eq_iff (x := row) (y := n.toNat - 1) hs
    omega
  rw [Shows, before, quotient]
  refine and_congr_right fun hle => ?_
  -- An offset that lies before such a row has not stopped.
  have unstopped : (numbered size n).offset.toNat = (n.toNat - 1) * size.toNat := by
    rw [toNat_offset, min_eq_left (hle.trans hrow.le)]
  rw [unstopped]
  rfl

/-- Offsets do not go back from one page to the next, even where they stop. -/
theorem offset_numbered_le (size : UInt64) (h : m ≤ n) :
    (numbered size m).offset ≤ (numbered size n).offset := by
  have hmn : m.toNat - 1 ≤ n.toNat - 1 := Nat.sub_le_sub_right (UInt64.le_iff_toNat_le.mp h) 1
  rw [UInt64.le_iff_toNat_le, toNat_offset, toNat_offset]
  exact min_le_min_right _ (Nat.mul_le_mul_right _ hmn)

/-- `Tiles size` says that the pages of `size` rows leave out no row and show none twice, as far as
offsets go. -/
structure Tiles (size : UInt64) : Prop where
  /-- One page shows the row. -/
  existsUnique : ∀ row < UInt64.size - 1, ∃! n : UInt64, 1 ≤ n ∧ (numbered size n).Shows row
  /-- Later pages begin no earlier. -/
  offset_le : ∀ m n : UInt64, m ≤ n → (numbered size m).offset ≤ (numbered size n).offset

/-- **Pages of any size but zero** show every row once, in order, as far as rows are counted below
the greatest offset. -/
theorem tiles (hsize : 1 ≤ size) : Tiles size where
  existsUnique row hrow := by
    -- The quotient is at most the row, so the number of the page fits 64 bits.
    have hle : row / size.toNat ≤ row := Nat.div_le_self row size.toNat
    have hn : (UInt64.ofNat (row / size.toNat + 1)).toNat = row / size.toNat + 1 :=
      UInt64.toNat_ofNat_of_lt' (by omega)
    have hone : 1 ≤ UInt64.ofNat (row / size.toNat + 1) := by
      rw [UInt64.le_iff_toNat_le, hn]
      exact Nat.le_add_left 1 _
    refine ⟨_, ⟨hone, (shows_numbered_iff hsize hone hrow).mpr hn.symm⟩, ?_⟩
    rintro m ⟨hm, hshows⟩
    rw [← UInt64.toNat_inj, hn, (shows_numbered_iff hsize hm hrow).mp hshows]
  offset_le _ _ := offset_numbered_le size

/-- Pages so large that the offset of the third one has stopped. -/
theorem tiles_large :
    (1 : UInt64) ≤ 0xC000000000000000 ∧
      (numbered 0xC000000000000000 3).offset = 0xFFFFFFFFFFFFFFFF ∧
      (numbered 0xC000000000000000 2).Shows (UInt64.size - 2) ∧ Tiles 0xC000000000000000 :=
  ⟨by decide, by decide, by constructor <;> decide, tiles (by decide)⟩

end FacetQuery.Page
