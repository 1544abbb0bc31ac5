/-
# The number that a decimal denotes

A coefficient and an exponent are one of many ways to write a number:
`x.padded k` is the number `x` with `k` more zeros in its coefficient.

    the same number                              more zeros on the
    `x.canonical`                                left
    `x.round p`, of at most `p` significant      left
    what is read from plain notation             right

So all of them denote one rational number, `x.toRat`, and their leading digits
stand at one place.
-/
import Reckoner.Proofs.Decimal.Rounding

namespace Reckoner

theorem ten_zpow_pos (e : Int) : (0 : Rat) < 10 ^ e := Rat.zpow_pos (by decide)

theorem ten_zpow_eq {e f : Int} (h : e ≤ f) :
    (10 : Rat) ^ f = (pow10 (f - e).toNat : Nat) * 10 ^ e := by
  rw [pow10_eq, Rat.natCast_pow, Rat.natCast_ofNat, ← Rat.zpow_natCast,
    ← Rat.zpow_add (by decide), show ((f - e).toNat : Int) + e = f by omega]

namespace Decimal

/-- The rational number that a decimal denotes. -/
def toRat (x : Decimal) : Rat :=
  (if x.negative then -(x.coeff : Rat) else x.coeff) * 10 ^ x.exp

/-- The same number with `k` zeros more in the coefficient. -/
def padded (x : Decimal) (k : Nat) : Decimal := ⟨x.negative, x.coeff * pow10 k, x.exp - k⟩

theorem toRat_neg (x : Decimal) : x.neg.toRat = -x.toRat := by
  obtain ⟨negative, c, e⟩ := x
  cases negative
  · exact Rat.neg_mul _ _
  · simp only [toRat, neg, Bool.not_true, Bool.false_eq_true, if_false, if_true, Rat.neg_mul,
      Rat.neg_neg]

/-- The sign and the magnitude. -/
theorem toRat_abs (x : Decimal) : x.toRat = if x.negative then -x.abs.toRat else x.abs.toRat := by
  obtain ⟨negative, c, e⟩ := x
  cases negative
  · rfl
  · exact toRat_neg ⟨false, c, e⟩

theorem toRat_of_zero {x : Decimal} (h : x.coeff = 0) : x.toRat = 0 := by
  unfold toRat
  rw [h]
  split
  · exact Rat.zero_mul _
  · exact Rat.zero_mul _

theorem toRat_ofNat (k : Nat) : (ofNat k).toRat = k := by
  simp only [toRat, ofNat, Bool.false_eq_true, if_false, Rat.zpow_zero, Rat.mul_one]

theorem toRat_power (negative : Bool) (e : Int) :
    (Decimal.mk negative 1 e).toRat = if negative then -(10 : Rat) ^ e else 10 ^ e := by
  cases negative
  · exact Rat.one_mul _
  · exact (Rat.neg_mul _ _).trans (congrArg Neg.neg (Rat.one_mul _))

theorem padded_zero (x : Decimal) : x.padded 0 = x := by
  simp only [padded, pow10_eq, Nat.pow_zero, Nat.mul_one, Int.natCast_zero, Int.sub_zero]

theorem coeff_padded_eq_zero {x : Decimal} {k : Nat} : (x.padded k).coeff = 0 ↔ x.coeff = 0 := by
  have := pow10_pos k
  simp only [padded, Nat.mul_eq_zero]
  omega

theorem toRat_padded (x : Decimal) (k : Nat) : (x.padded k).toRat = x.toRat := by
  have hscale : (10 : Rat) ^ x.exp = (pow10 k : Nat) * 10 ^ (x.exp - k) := by
    rw [ten_zpow_eq (show x.exp - k ≤ x.exp by omega), Int.sub_sub_self, Int.toNat_natCast]
  simp only [toRat, padded, Rat.natCast_mul]
  split
  · rw [← Rat.neg_mul, Rat.mul_assoc, ← hscale]
  · rw [Rat.mul_assoc, ← hscale]

theorem magnitude_padded {x : Decimal} (h : x.coeff ≠ 0) (k : Nat) :
    (x.padded k).magnitude = x.magnitude := by
  simp only [magnitude, digits, padded, digitCount_mul_pow10 h]
  omega

theorem exists_padded_canonical {x : Decimal} (h : x.coeff ≠ 0) :
    ∃ k, x = x.canonical.padded k := by
  obtain ⟨k, hc, he, hn, -⟩ := canonical_spec h
  refine ⟨k, ?_⟩
  rw [padded, hn, ← hc, he, Int.add_sub_cancel]

/-- The canonical form of zero is not the same pair, but the same number. -/
theorem toRat_canonical (x : Decimal) : x.canonical.toRat = x.toRat := by
  by_cases h : x.coeff = 0
  · rw [toRat_of_zero h, canonical_of_zero h]
    exact toRat_of_zero rfl
  · obtain ⟨k, hk⟩ := exists_padded_canonical h
    exact (toRat_padded x.canonical k).symm.trans (congrArg toRat hk.symm)

/-! ## Rounding what is short enough -/

theorem halfUp_mul {d : Nat} (hd : 0 < d) (q : Nat) : halfUp (q * d) d = q := by
  unfold halfUp
  have hsplit : 2 * (q * d) + d = d + 2 * d * q := by
    rw [Nat.mul_comm q, ← Nat.mul_assoc, Nat.add_comm]
  rw [hsplit, Nat.add_mul_div_left _ _ (by omega), Nat.div_eq_of_lt (by omega), Nat.zero_add]

/-- Rounding a number that has no more than `p` significant digits takes zeros
away and nothing else. -/
theorem exists_padded_round {p : Nat} (hp : 0 < p) {x : Decimal} (h : x.significant ≤ p) :
    ∃ k, x = (x.round p).padded k := by
  unfold round
  dsimp only
  split
  · exact ⟨0, (padded_zero x).symm⟩
  · next hexcess =>
      obtain ⟨m, j, hm, hc⟩ := (significant_le_iff hp).mp h
      have hm0 : m ≠ 0 := by
        rintro rfl
        rw [Nat.zero_mul] at hc
        rw [digits, hc, digitCount_zero] at hexcess
        omega
      -- the digits cut off are among the zeros behind `m`
      have hle : x.digits - p ≤ j := by
        have := (digitCount_le_iff hp).mpr hm
        rw [digits, hc, digitCount_mul_pow10 hm0]
        omega
      obtain ⟨i, hi⟩ := Nat.exists_eq_add_of_le' hle
      have hcoeff : x.coeff = m * pow10 i * pow10 (x.digits - p) := by
        rw [hc, hi, pow10_add, Nat.mul_assoc]
      refine ⟨x.digits - p, ?_⟩
      generalize x.digits - p = k at hcoeff
      simp only [padded, hcoeff, halfUp_mul (pow10_pos k)]
      rw [← hcoeff, Int.add_sub_cancel]

/-- In its shortest form such a number is left alone. -/
theorem round_canonical {p : Nat} {x : Decimal} (h : x.significant ≤ p) :
    x.canonical.round p = x.canonical := by
  have hexcess : x.canonical.digits - p = 0 := Nat.sub_eq_zero_of_le h
  rw [round, if_pos hexcess]

theorem toRat_round {p : Nat} (hp : 0 < p) {x : Decimal} (h : x.significant ≤ p) :
    (x.round p).toRat = x.toRat := by
  obtain ⟨k, hk⟩ := exists_padded_round hp h
  exact (toRat_padded (x.round p) k).symm.trans (congrArg toRat hk.symm)

end Decimal

end Reckoner
