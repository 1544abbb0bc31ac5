/-
# Decimals at one scale

A decimal is a whole number of units of `10^e`, for every `e` that is not above
its exponent (`Decimal.toRat_eq_coeffAt`):

    x = x.coeffAt e · 10^e

Two decimals always have such a unit in common.  Whatever is asked of the
numbers they denote is asked there of two whole numbers: whether they are equal
(`exists_padded_of_toRat_eq`) and which is less (`lt_iff`).

`Representable p q` says of a rational number that some decimal of at most `p`
significant digits, with its leading digit in range, denotes it.  Then the
leading digit of every decimal that denotes it is in range: that does not depend
on where the zeros are written.
-/
import Reckoner.Proofs.Operation.Reading

namespace Reckoner

/-! ## Powers of ten -/

theorem ten_zpow_le {e f : Int} (h : e ≤ f) : (10 : Rat) ^ e ≤ 10 ^ f := by
  rw [ten_zpow_eq h]
  have hone : (1 : Rat) ≤ (pow10 (f - e).toNat : Nat) := by
    exact_mod_cast pow10_pos (f - e).toNat
  have := Rat.mul_le_mul_of_nonneg_right hone (Rat.le_of_lt (ten_zpow_pos e))
  rwa [Rat.one_mul] at this

theorem mul_ten_zpow_cancel {a b e : Int} (h : (a : Rat) * 10 ^ e = b * 10 ^ e) : a = b := by
  have hne : (10 : Rat) ^ e ≠ 0 := Rat.ne_of_gt (ten_zpow_pos e)
  have hdiv := congrArg (· / (10 : Rat) ^ e) h
  simp only [Rat.mul_div_cancel hne] at hdiv
  exact Rat.intCast_inj.mp hdiv

namespace Decimal

variable {x y : Decimal} {p : Nat}

/-! ## Coefficients at a unit -/

theorem natAbs_coeffAt (x : Decimal) (e : Int) :
    (x.coeffAt e).natAbs = x.coeff * pow10 (x.exp - e).toNat := by
  unfold coeffAt
  dsimp only
  split <;> omega

/-- A decimal is a whole number of units of any power of ten that is not above
its exponent. -/
theorem toRat_eq_coeffAt (x : Decimal) {e : Int} (h : e ≤ x.exp) :
    x.toRat = x.coeffAt e * 10 ^ e := by
  unfold toRat coeffAt
  rw [ten_zpow_eq h, ← Rat.mul_assoc]
  split <;> push_cast <;> grind

/-- A whole number of units, as a decimal. -/
theorem toRat_natAbs (s e : Int) : (Decimal.mk (decide (s < 0)) s.natAbs e).toRat = s * 10 ^ e := by
  rw [toRat_eq_coeffAt _ (Int.le_refl e)]
  congr 2
  unfold coeffAt
  simp only [Int.sub_self, Int.toNat_zero, pow10_eq, Nat.pow_zero, Nat.mul_one, decide_eq_true_eq]
  split <;> omega

theorem toRat_eq_zero_iff : x.toRat = 0 ↔ x.coeff = 0 := by
  refine ⟨fun h => ?_, toRat_of_zero⟩
  rw [toRat_eq_coeffAt x (Int.le_refl _), Rat.mul_eq_zero] at h
  rcases h with h | h
  · have hz := natAbs_coeffAt x x.exp
    rw [Rat.intCast_eq_zero_iff.mp h] at hz
    simp only [Int.natAbs_zero, Int.sub_self, Int.toNat_zero, pow10_eq, Nat.pow_zero,
      Nat.mul_one] at hz
    exact hz.symm
  · exact absurd h (Rat.ne_of_gt (ten_zpow_pos _))

/-! ## Equal numbers -/

/-- Decimals that denote one number differ in their zeros and nothing else. -/
theorem exists_padded_of_toRat_eq (h : x.toRat = y.toRat) :
    ∃ j k, (x.padded j).coeff = (y.padded k).coeff ∧ (x.padded j).exp = (y.padded k).exp := by
  obtain ⟨e, hx, hy⟩ : ∃ e, e ≤ x.exp ∧ e ≤ y.exp := ⟨min x.exp y.exp, by omega, by omega⟩
  rw [toRat_eq_coeffAt x hx, toRat_eq_coeffAt y hy] at h
  have habs := congrArg Int.natAbs (mul_ten_zpow_cancel h)
  rw [natAbs_coeffAt, natAbs_coeffAt] at habs
  refine ⟨(x.exp - e).toNat, (y.exp - e).toNat, habs, ?_⟩
  simp only [padded]
  omega

/-- A number has one canonical form for each sign that its zero may have. -/
theorem canonical_eq_of_toRat_eq (hs : x.negative = y.negative) (h : x.toRat = y.toRat) :
    x.canonical = y.canonical := by
  by_cases hx : x.coeff = 0
  · have hy : y.coeff = 0 := by rw [← toRat_eq_zero_iff, ← h, toRat_of_zero hx]
    rw [canonical_of_zero hx, canonical_of_zero hy, hs]
  have hy : y.coeff ≠ 0 := by
    rwa [Ne, ← toRat_eq_zero_iff, ← h, toRat_eq_zero_iff]
  obtain ⟨-, -, -, hxn, hxmod⟩ := canonical_spec hx
  obtain ⟨-, -, -, hyn, hymod⟩ := canonical_spec hy
  rw [← toRat_canonical x, ← toRat_canonical y] at h
  obtain ⟨j, k, hc, he⟩ := exists_padded_of_toRat_eq h
  simp only [padded] at hc he
  -- neither coefficient ends in zero, so neither is the smaller one
  have hcoeff := Nat.le_antisymm (le_of_mul_pow10_eq hxmod hc) (le_of_mul_pow10_eq hymod hc.symm)
  have hpos : 0 < y.canonical.coeff := Nat.pos_of_ne_zero (mt coeff_canonical_eq_zero.mp hy)
  rw [hcoeff] at hc
  have hjk : j = k :=
    (Nat.pow_right_inj (a := 10) (by decide)).mp (Nat.eq_of_mul_eq_mul_left hpos hc)
  have hexp : x.canonical.exp = y.canonical.exp := by omega
  have hneg : x.canonical.negative = y.canonical.negative := by rw [hxn, hyn, hs]
  generalize x.canonical = u at hneg hcoeff hexp
  generalize y.canonical = v at hneg hcoeff hexp
  obtain ⟨s, c, e⟩ := u
  obtain ⟨t, d, f⟩ := v
  cases hneg
  cases hcoeff
  cases hexp
  rfl

theorem inRange_of_toRat_eq (h : x.toRat = y.toRat) (hy : y.InRange) : x.InRange := by
  obtain ⟨j, k, hc, he⟩ := exists_padded_of_toRat_eq h
  rw [← inRange_padded (k := j)]
  rw [← inRange_padded (k := k)] at hy
  unfold InRange magnitude digits at hy ⊢
  rw [hc, he]
  exact hy

/-! ## The order -/

theorem toRat_abs_nonneg (x : Decimal) : 0 ≤ x.abs.toRat :=
  Rat.mul_nonneg Rat.natCast_nonneg (Rat.le_of_lt (ten_zpow_pos _))

theorem toRat_abs_pos (h : x.coeff ≠ 0) : 0 < x.abs.toRat :=
  Rat.mul_pos (Rat.natCast_pos.mpr (Nat.pos_of_ne_zero h)) (ten_zpow_pos _)

/-- The magnitude is below the power of ten above its leading digit. -/
theorem toRat_abs_lt (x : Decimal) : x.abs.toRat < 10 ^ (x.magnitude + 1) := by
  have hscale : (10 : Rat) ^ (x.magnitude + 1) = (pow10 x.digits : Nat) * 10 ^ x.exp := by
    rw [ten_zpow_eq (e := x.exp) (by unfold magnitude; omega)]
    congr 3
    unfold magnitude
    omega
  rw [hscale]
  exact Rat.mul_lt_mul_of_pos_right (Rat.natCast_lt_natCast.mpr (lt_pow10_digitCount x.coeff))
    (ten_zpow_pos _)

/-- The magnitude is not below the power of ten of its leading digit. -/
theorem le_toRat_abs (h : x.coeff ≠ 0) : 10 ^ x.magnitude ≤ x.abs.toRat := by
  have hpos := digitCount_pos x.coeff
  have hscale : (10 : Rat) ^ x.magnitude = (pow10 (x.digits - 1) : Nat) * 10 ^ x.exp := by
    rw [ten_zpow_eq (e := x.exp) (by unfold magnitude digits; omega)]
    congr 3
    unfold magnitude digits
    omega
  rw [hscale]
  exact Rat.mul_le_mul_of_nonneg_right (Rat.natCast_le_natCast.mpr (pow10_digitCount_le h))
    (Rat.le_of_lt (ten_zpow_pos _))

theorem toRat_abs_lt_of_magnitude (hy : y.coeff ≠ 0) (h : x.magnitude < y.magnitude) :
    x.abs.toRat < y.abs.toRat :=
  Rat.not_le.mp fun hle => by
    have := toRat_abs_lt x
    have := ten_zpow_le (show x.magnitude + 1 ≤ y.magnitude by omega)
    have := le_toRat_abs hy
    grind

theorem absLt_iff : x.absLt y = true ↔ x.abs.toRat < y.abs.toRat := by
  unfold absLt
  by_cases hy : y.coeff = 0
  · rw [if_pos hy, toRat_of_zero (x := y.abs) hy]
    have := toRat_abs_nonneg x
    grind
  rw [if_neg hy]
  by_cases hx : x.coeff = 0
  · rw [if_pos hx, toRat_of_zero (x := x.abs) hx]
    exact iff_of_true rfl (toRat_abs_pos hy)
  rw [if_neg hx]
  by_cases hm : x.magnitude = y.magnitude
  · rw [if_neg (not_not_intro hm)]
    by_cases he : x.exp ≤ y.exp
    · have hscale := ten_zpow_eq he
      rw [if_pos he, decide_eq_true_eq, ← Rat.natCast_lt_natCast,
        ← Rat.mul_lt_mul_right (ten_zpow_pos x.exp), Rat.natCast_mul, Rat.mul_assoc, ← hscale]
      rfl
    · have hscale := ten_zpow_eq (show y.exp ≤ x.exp by omega)
      rw [if_neg he, decide_eq_true_eq, ← Rat.natCast_lt_natCast,
        ← Rat.mul_lt_mul_right (ten_zpow_pos y.exp), Rat.natCast_mul, Rat.mul_assoc, ← hscale]
      rfl
  · rw [if_pos hm, decide_eq_true_eq]
    refine ⟨toRat_abs_lt_of_magnitude hy, fun h => ?_⟩
    rcases Int.lt_or_gt_of_ne hm with hlt | hgt
    · exact hlt
    · have := toRat_abs_lt_of_magnitude hx hgt
      grind

theorem lt_iff : x.lt y = true ↔ x.toRat < y.toRat := by
  have hxs := toRat_abs x
  have hys := toRat_abs y
  unfold lt
  by_cases hx : x.coeff = 0
  · rw [if_pos hx, toRat_of_zero hx]
    by_cases hy : y.coeff = 0
    · simp only [hy, toRat_of_zero hy, Rat.lt_irrefl, ne_eq, not_true_eq_false, decide_false,
        Bool.false_and, Bool.false_eq_true]
    · have := toRat_abs_pos hy
      simp only [ne_eq, hy, not_false_eq_true, decide_true, Bool.true_and, Bool.not_eq_true']
      grind
  rw [if_neg hx]
  have hxpos := toRat_abs_pos hx
  by_cases hy : y.coeff = 0
  · rw [if_pos hy, toRat_of_zero hy]
    grind
  rw [if_neg hy]
  have hypos := toRat_abs_pos hy
  split
  · next hxn hyn =>
      rw [absLt_iff, hxs, hys, hxn, hyn]
      rfl
  · next hxn hyn =>
      rw [absLt_iff, hxs, hys, hxn, hyn]
      exact Rat.neg_lt_neg_iff.symm
  · next hxn hyn => grind
  · next hxn hyn => grind

end Decimal

/-! ## Numbers that need no rounding -/

/-- `Representable p q`: some decimal of at most `p` significant digits, with
its leading digit in range, denotes `q`. -/
def Representable (p : Nat) (q : Rat) : Prop :=
  ∃ x : Decimal, x.significant ≤ p ∧ x.InRange ∧ x.toRat = q

namespace Representable

variable {x : Decimal} {p : Nat}

theorem inRange (h : Representable p x.toRat) : x.InRange := by
  obtain ⟨y, -, hy, hyx⟩ := h
  exact Decimal.inRange_of_toRat_eq hyx.symm hy

theorem fit_eq (h : Representable p x.toRat) : Number.fit x = .finite x.canonical :=
  Number.fit_of_inRange h.inRange

end Representable

end Reckoner
