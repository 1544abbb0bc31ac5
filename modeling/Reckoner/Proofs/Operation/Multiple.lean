/-
# The multiple that a remainder is taken from

A floored remainder is what is left of `q` when the multiple `r · ⌊q / r⌋` of the
divisor is taken off.  With one sign that multiple lies between zero and `q`; with
two signs it lies beyond `q`, by less than the divisor,

    |q| = |r| · k + s,   0 ≤ s < |r|,   |r · ⌊q / r⌋| = |q| + |r| - s   (s ≠ 0)

and it may leave the range of exponents although `q`, `r` and the remainder are all
within it.  `Number.multipleOverflows` tells when it does, and never writes the
multiple down (`multipleOverflows_iff`): at the top of the range, the multiple passes
the power of ten above `q` where `|r| - s` is no less than what `|q|` lacks of it.
-/
import Reckoner.Number.Arithmetic
import Reckoner.Proofs.Decimal.WholePart

namespace Reckoner

/-- The multiple of `r` that is taken off `q` for the floored remainder. -/
def floorMultiple (q r : Rat) : Rat := r * (q / r).floor

theorem floorMultiple_eq (q r : Rat) : floorMultiple q r = q - floorMod q r := by
  unfold floorMultiple floorMod
  ring

/-- The multiple is beyond the dividend only where the signs differ and something is
left. -/
theorem abs_floorMultiple {a b r : Rat} {k : Nat} (h : a = b * (k : Int) + r) (h0 : 0 ≤ r)
    (h1 : r < b) (s t : Bool) :
    |floorMultiple (if s then -a else a) (if t then -b else b)| =
      if r = 0 ∨ s = t then a - r else a - r + b := by
  have hle : 0 ≤ a - r := by
    have : 0 ≤ b * (k : Int) := mul_nonneg (by linarith) (by simp)
    linarith
  rw [floorMultiple_eq, floorMod_signed h h0 h1]
  by_cases hr : r = 0
  · simp only [hr, true_or, if_true, sub_zero] at hle ⊢
    cases s
    · exact abs_of_nonneg hle
    · exact (abs_neg a).trans (abs_of_nonneg hle)
  · simp only [hr, false_or, if_false]
    cases s <;> cases t <;> simp only [Bool.false_eq_true, reduceCtorEq, if_false, if_true]
    · exact abs_of_nonneg hle
    · rw [abs_of_nonneg (by linarith)]
      ring
    · rw [abs_of_nonpos (by linarith)]
      ring
    · rw [abs_of_nonpos (by linarith)]
      ring

/-- The leading digit stands above a power of ten. -/
theorem lt_leading_iff {e : Int} (he : 0 ≤ e) {q : Rat} :
    e < leading q ↔ 10 ^ (e + 1) ≤ |q| := by
  rcases eq_or_ne q 0 with rfl | hq
  · rw [leading_zero, abs_zero]
    exact iff_of_false (by omega) (not_le.mpr (ten_zpow_pos _))
  · constructor
    · intro h
      exact (ten_zpow_le (by omega)).trans (ten_zpow_leading_le hq)
    · intro h
      have := ten_zpow_lt (h.trans_lt (lt_ten_zpow_leading q))
      omega

namespace Decimal

theorem toRat_sub (x y : Decimal) : (x.sub y).toRat = x.toRat - y.toRat := by
  rw [sub, toRat_add, toRat_neg, sub_eq_add_neg]

/-- What a magnitude lacks of the power of ten above it. -/
theorem toRat_room (x : Decimal) :
    (Decimal.mk false (pow10 x.digits - x.coeff) x.exp).toRat =
      10 ^ (x.magnitude + 1) - x.abs.toRat := by
  have hpower := ten_zpow_eq (show x.exp ≤ x.magnitude + 1 by unfold magnitude; omega)
  have hdigits : (x.magnitude + 1 - x.exp).toNat = x.digits := by
    unfold magnitude
    omega
  have hle : x.coeff ≤ pow10 x.digits := (lt_pow10_digitCount x.coeff).le
  rw [hpower, hdigits]
  simp only [toRat, abs, Bool.false_eq_true, if_false]
  rw [← sub_mul, ← Nat.cast_sub hle]

theorem InRange.toRat_abs_lt {x : Decimal} (h : x.InRange) :
    x.abs.toRat < 10 ^ (Number.exponentLimit + 1) := by
  by_cases hx : x.coeff = 0
  · rw [toRat_of_zero (x := x.abs) hx]
    exact ten_zpow_pos _
  · have := h hx
    exact (Decimal.toRat_abs_lt x).trans_le (ten_zpow_le (by omega))

end Decimal

namespace Number

variable {x y : Decimal}

theorem multipleOverflows_eq_true (x y : Decimal) :
    multipleOverflows x y = true ↔ x.magnitude = exponentLimit ∧ x.negative ≠ y.negative ∧
      y.abs.toRat ≤ x.abs.toRat ∧ (x.magnitudeMod y).toRat ≠ 0 ∧
      10 ^ (exponentLimit + 1) ≤ x.abs.toRat - (x.magnitudeMod y).toRat + y.abs.toRat := by
  simp only [multipleOverflows, Bool.and_eq_true, decide_eq_true_eq, bne_iff_ne,
    Bool.not_eq_true', ← Bool.not_eq_true, Decimal.lt_iff, Decimal.toRat_sub, Decimal.toRat_room,
    not_lt, ne_eq, ← Decimal.toRat_eq_zero_iff, and_assoc]
  refine and_congr_right fun hm => and_congr_right fun _ => and_congr_right fun _ =>
    and_congr_right fun _ => ?_
  rw [hm]
  constructor <;> intro h <;> linarith

/-- For operands within the range, the test says whether the multiple is above it. -/
theorem multipleOverflows_iff (hx : x.InRange) (hy : y.InRange) (hne : y.toRat ≠ 0) :
    multipleOverflows x y = true ↔
      exponentLimit < leading (floorMultiple x.toRat y.toRat) := by
  have hyc : y.coeff ≠ 0 := mt Decimal.toRat_of_zero hne
  obtain ⟨k, hsplit, hlow, hhigh⟩ := Decimal.magnitudeMod_spec x hyc
  have hnonneg := Decimal.toRat_abs_nonneg x
  have hxlt := hx.toRat_abs_lt
  have hylt := hy.toRat_abs_lt
  have hypos := Decimal.toRat_abs_pos hyc
  rw [multipleOverflows_eq_true, lt_leading_iff (by decide), Decimal.toRat_abs x,
    Decimal.toRat_abs y, abs_floorMultiple hsplit hlow hhigh]
  generalize x.magnitudeMod y = r at *
  constructor
  · rintro ⟨-, hs, -, hr, hle⟩
    rwa [if_neg (not_or.mpr ⟨hr, hs⟩)]
  · split
    · intro h
      linarith
    · next hbeyond =>
        obtain ⟨hr, hs⟩ := not_or.mp hbeyond
        intro h
        -- a dividend that is less than the divisor is its own remainder
        have hle : y.abs.toRat ≤ x.abs.toRat := by
          rcases Nat.eq_zero_or_pos k with rfl | hk
          · rw [Nat.cast_zero, Int.cast_zero, mul_zero, zero_add] at hsplit
            linarith
          · have hone : (1 : Rat) ≤ (k : Int) := by exact_mod_cast hk
            have := mul_le_mul_of_nonneg_left hone hypos.le
            linarith
        have hxc : x.coeff ≠ 0 := by
          intro h0
          rw [Decimal.toRat_of_zero (x := x.abs) h0] at hle
          linarith
        have hrange := hx hxc
        refine ⟨?_, hs, hle, hr, h⟩
        refine le_antisymm (by omega) (not_lt.mp fun hmag => ?_)
        -- with fewer digits, twice the dividend is not above the range
        have := (Decimal.toRat_abs_lt x).trans_le
          (ten_zpow_le (show x.magnitude + 1 ≤ exponentLimit by omega))
        have hten : (10 : Rat) ^ (exponentLimit + 1) = 10 ^ exponentLimit * 10 :=
          zpow_add_one₀ (by norm_num) _
        have := ten_zpow_pos exponentLimit
        linarith

end Number

end Reckoner
