import FacetQuery.Decimal.Shortest
import FacetQuery.Proofs.Decimal.Rounding

/-!
# Decimal — How large the shortest digits are

The search offers a decimal that reads back, so the ends of what reads back bound it.

* `Binary64.holds_of_search`: what the search finds reads back, on one of the grids tried.
* `Decimal.Moderate`: a decimal whose exponent is in the range of doubles, and that may be read in
  two rounded steps without becoming infinite.
* `Binary64.moderate_shortest`: so are the shortest digits of all doubles but the two greatest.
-/

namespace FacetQuery

namespace Binary64

variable {x : Binary64} {d : Decimal} {tie : Tie} {k : Int}

/-! ### The search -/

/-- On one grid, a decimal is offered only if it reads back. Of the two around the double the nearer
one is chosen if both do. -/
theorem holds_of_onGrid (h : onGrid tie x k = some d) : x.holds d = true ∧ d.exponent = k := by
  -- Each branch that offers a decimal has tested it.
  unfold onGrid at h
  simp only at h
  split at h
  · next hbelow habove =>
      split at h
      · cases h
        exact ⟨hbelow, rfl⟩
      · split at h
        · cases h
          exact ⟨habove, rfl⟩
        · cases tie with
          | up =>
              cases h
              exact ⟨habove, rfl⟩
          | even =>
              simp only [Option.some.injEq] at h
              subst h
              split
              · exact ⟨hbelow, rfl⟩
              · exact ⟨habove, rfl⟩
  · next hbelow _ =>
      cases h
      exact ⟨hbelow, rfl⟩
  · next _ habove =>
      cases h
      exact ⟨habove, rfl⟩
  · cases h

/-- The search goes from coarse grids to fine ones and ends on the first that has a decimal which
reads back. -/
theorem holds_of_search {n : Nat} (h : search tie x n k = some d) :
    x.holds d = true ∧ k - n < d.exponent ∧ d.exponent ≤ k := by
  induction n generalizing k with
  | zero => cases h
  | succ n ih =>
      rw [search] at h
      cases hgrid : onGrid tie x k with
      | some d' =>
          rw [hgrid] at h
          cases h
          obtain ⟨hholds, rfl⟩ := holds_of_onGrid hgrid
          exact ⟨hholds, by omega, by omega⟩
      | none =>
          rw [hgrid] at h
          obtain ⟨hholds, hlow, hhigh⟩ := ih h
          exact ⟨hholds, by omega, by omega⟩

/-! ### The ends -/

/-- What reads back lies between the two ends of the double, in whole numbers so that nothing is
rounded. -/
theorem ends_of_holds (h : x.holds d = true) :
    x.lowEnd * 10 ^ (-d.exponent).toNat ≤ d.digits * 10 ^ d.exponent.toNat * (4 * perOne) ∧
      d.digits * 10 ^ d.exponent.toNat * (4 * perOne) ≤ x.highEnd * 10 ^ (-d.exponent).toNat := by
  have hpoint : 1076 = point + 2 := by rw [point]
  have hquarters : 2 ^ (point + 2) = 4 * perOne := by rw [Nat.pow_add, Nat.mul_comm, perOne]
  unfold holds at h
  simp only [hpoint, Nat.pow_eq, hquarters] at h
  split at h
  · simpa using h
  · simp only [Bool.and_eq_true, decide_eq_true_eq] at h
    exact ⟨Nat.le_of_lt h.1, Nat.le_of_lt h.2⟩

theorem lowEnd_pos (h : 0 < x.units) : 0 < x.lowEnd := by
  have hunits : x.spacing ≤ x.units :=
    Nat.le_mul_of_pos_left _ (Nat.pos_of_mul_pos_right h)
  have hspacing : 0 < x.spacing := Nat.two_pow_pos _
  rw [lowEnd]
  split <;> omega

theorem digits_pos_of_holds (hx : 0 < x.units) (h : x.holds d = true) : 0 < d.digits := by
  have hends := (ends_of_holds h).1
  rcases Nat.eq_zero_or_pos d.digits with hzero | hpos
  · rw [hzero, Nat.zero_mul, Nat.zero_mul] at hends
    have hpower : 0 < 10 ^ (-d.exponent).toNat := Nat.pow_pos (by decide)
    have := Nat.mul_pos (lowEnd_pos hx) hpower
    omega
  · exact hpos

theorem spacing_le {k : Nat} (h : x.biased ≤ k + 1) : x.spacing ≤ 2 ^ k := by
  rw [spacing, Nat.pow_eq]
  exact Nat.pow_le_pow_right (by decide) (by omega)

theorem significand_le : x.significand ≤ hiddenBit + x.fraction := by
  rw [significand]
  split <;> omega

/-- The two greatest doubles apart, the upper end leaves room for products. Large exponents are
bounded by the last spacing, small ones by far. -/
theorem highEnd_le (h : x.magnitude < infinite - 2) :
    x.highEnd ≤ roomForProducts * (4 * perOne) := by
  have hbit : hiddenBit = 0x10000000000000 := rfl
  have hinf : infinite = 2047 * 0x10000000000000 := rfl
  have hhigh : x.highEnd = (4 * x.significand + 2) * x.spacing := by
    rw [highEnd, units]
    ring
  have hroom : roomForProducts * (4 * perOne) =
      (4 * hiddenBit - 5) * 4 * 2 ^ (2044 - point + point) := by
    rw [roomForProducts, perOne, Nat.pow_add]
    ring
  obtain ⟨k, hk⟩ : ∃ k, 2044 - point + point = k := ⟨_, rfl⟩
  have hlast : k = 2044 := hk ▸ Nat.sub_add_cancel point_le
  have hsignificand : x.significand ≤ hiddenBit + x.fraction := significand_le
  have hmagnitude : x.biased * 0x10000000000000 + x.fraction = x.magnitude := by
    have := Nat.div_add_mod x.magnitude hiddenBit
    rwa [Nat.mul_comm] at this
  have hfraction : x.fraction < 0x10000000000000 := Nat.mod_lt _ (by decide)
  rw [hinf] at h
  rw [hhigh, hroom, hk]
  rcases Nat.lt_or_ge x.biased 2046 with hlow | htop
  · -- Below the last binade the spacing alone leaves enough room.
    refine Nat.mul_le_mul ?_ (spacing_le (by omega))
    rw [hbit] at hsignificand ⊢
    omega
  · -- In the last binade the spacing is doubled, and two significands are missing.
    have hspacing : x.spacing ≤ 2 * 2 ^ k := by
      rw [Nat.mul_comm, ← Nat.pow_succ]
      exact spacing_le (by omega)
    calc (4 * x.significand + 2) * x.spacing
        ≤ (4 * hiddenBit - 5) * 2 * (2 * 2 ^ k) := by
          refine Nat.mul_le_mul ?_ hspacing
          rw [hbit] at hsignificand ⊢
          omega
      _ = (4 * hiddenBit - 5) * 4 * 2 ^ k := by ring

end Binary64

/-! ### The digits -/

/-- `Moderate d`: the exponent of `d` is in the range of doubles, and `d` may be read as a product
of two rounded numbers without becoming infinite. -/
structure Decimal.Moderate (d : Decimal) : Prop where
  least : -324 ≤ d.exponent
  greatest : d.exponent ≤ 308
  room : d.digits * 10 ^ d.exponent.toNat ≤
    Binary64.roomForProducts * 10 ^ (-d.exponent).toNat

theorem Decimal.moderate_zero : Decimal.Moderate ⟨0, 0⟩ where
  least := by decide
  greatest := by decide
  room := by simp

namespace Binary64

variable {x : Binary64}

/-- The search ends with a decimal that reads back, or the digits are a zero because every grid from
`10 ^ 308` down has been tried in vain. -/
theorem shortest_eq_or_holds (x : Binary64) (tie : Tie) :
    x.shortest tie = ⟨0, 0⟩ ∨
      x.holds (x.shortest tie) = true ∧
        -324 ≤ (x.shortest tie).exponent ∧ (x.shortest tie).exponent ≤ 308 := by
  rw [shortest]
  cases h : search tie x 633 308 with
  | none => exact .inl rfl
  | some d =>
      obtain ⟨hholds, hlow, hhigh⟩ := holds_of_search h
      exact .inr ⟨hholds, by simp only [Option.getD_some]; omega, hhigh⟩

/-- A zero among the digits stands alone. -/
theorem shortest_eq_of_digits_eq_zero {tie : Tie} (hx : 0 < x.units)
    (h : (x.shortest tie).digits = 0) : x.shortest tie = ⟨0, 0⟩ := by
  rcases shortest_eq_or_holds x tie with hzero | ⟨hholds, -⟩
  · exact hzero
  · have := digits_pos_of_holds hx hholds
    omega

/-- **The shortest digits are moderate** for all doubles but the two greatest. The lower end bounds
the exponent from below, the upper one leaves room for two roundings. -/
theorem moderate_shortest (h : x.magnitude < infinite - 2) (tie : Tie) :
    (x.shortest tie).Moderate := by
  rcases shortest_eq_or_holds x tie with hzero | ⟨hholds, hlow, hhigh⟩
  · exact hzero ▸ Decimal.moderate_zero
  · refine ⟨hlow, hhigh, ?_⟩
    refine Nat.le_of_mul_le_mul_right ?_ (Nat.mul_pos (by decide : 0 < 4) perOne_pos)
    calc _ ≤ x.highEnd * 10 ^ (-(x.shortest tie).exponent).toNat := (ends_of_holds hholds).2
      _ ≤ roomForProducts * (4 * perOne) * 10 ^ (-(x.shortest tie).exponent).toNat :=
        Nat.mul_le_mul_right _ (highEnd_le h)
      _ = _ := Nat.mul_right_comm _ _ _

/-- The shortest digits of the two greatest doubles. -/
theorem shortest_of_greatest (hfinite : x.isFinite = true) (h : infinite - 2 ≤ x.magnitude) :
    x.shortest .even = ⟨17976931348623157, 292⟩ ∨ x.shortest .even = ⟨17976931348623155, 292⟩ := by
  have hbits : x.bits = 0x7FEFFFFFFFFFFFFF ∨ x.bits = 0x7FEFFFFFFFFFFFFE ∨
      x.bits = 0xFFEFFFFFFFFFFFFF ∨ x.bits = 0xFFEFFFFFFFFFFFFE := by
    have hlow : 0x7FEFFFFFFFFFFFFE ≤ x.bits.toNat % 0x8000000000000000 := h
    have hhigh : x.bits.toNat % 0x8000000000000000 / 0x10000000000000 < 2047 :=
      decide_eq_true_iff.mp hfinite
    have hsize := x.bits.toNat_lt
    simp only [← UInt64.toNat_inj, UInt64.reduceToNat]
    omega
  obtain ⟨bits⟩ := x
  rcases hbits with rfl | rfl | rfl | rfl <;> decide +kernel

end Binary64

end FacetQuery
