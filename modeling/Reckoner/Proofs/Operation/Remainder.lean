/-
# The floored remainder, rounded

The exact remainder `floorMod q r` lies on the side of zero where `r` lies, and
is less far from it.  What `%` gives is that number rounded once, and rounding
can take it up to `r`, though not beyond:

    q and r of at most p digits       the remainder
    same sign, or |r| ≤ |q|           has at most p digits: it is a multiple of the
                                      unit of `r`
    other sign, and |q| < |r|         is `q + r`, and may have more; it is rounded to
                                      `r` where `q` is at most half the way from `r`
                                      to the number before it

So it is `r` itself that bounds the rounded remainder (`Operator.modulo_within`).
For operands of any length, `Operator.modulo_roundsOnce` says which results there
are and when there is none.  Both except the operands for which the multiple that is
taken off `q` is above the range of exponents: there the operator fails.
-/
import Reckoner.Catalog.Preset
import Reckoner.Precision
import Reckoner.Proofs.Operation.Exact
import Reckoner.Proofs.Sequencing

namespace Reckoner

variable {p : Nat} {q r : Rat}

/-! ## The exact remainder -/

/-- The remainder of two multiples of a unit is a multiple of it. -/
theorem exists_floorMod_mul (e a b : Int) :
    ∃ n : Int, floorMod (a * 10 ^ e) (b * 10 ^ e) = n * 10 ^ e := by
  refine ⟨a - b * (a * 10 ^ e / (b * 10 ^ e) : Rat).floor, ?_⟩
  rw [floorMod]
  push_cast
  ring

/-! ## Rounding it -/

/-- A remainder of numbers of `p` digits has `p` digits again, unless the dividend is
the smaller one and of the other sign. -/
theorem rounded_floorMod (hq : rounded p q = q) (hr : rounded p r = r) (hpos : 0 < r) :
    rounded p (floorMod q r) = floorMod q r ∨ q < 0 ∧ |q| < r := by
  rcases lt_or_ge |q| r with hlt | hge
  · rcases lt_or_ge q 0 with hneg | hnonneg
    · exact .inr ⟨hneg, hlt⟩
    · rw [abs_of_nonneg hnonneg] at hlt
      rw [floorMod_eq 0 (by rw [Int.cast_zero, mul_zero, zero_add]) (.inl ⟨hnonneg, hlt⟩)]
      exact .inl hq
  · -- the unit of `r` is not above that of `q`, and the remainder has no more digits than `r`
    have hunit : leading r - p + 1 ≤ leading q - p + 1 := by
      have : leading r ≤ leading q := leading_le_of_abs_le hpos.ne' (by rwa [abs_of_pos hpos])
      omega
    obtain ⟨a, ha⟩ := exists_mul_ten_zpow hunit (halfAway (q / 10 ^ (leading q - p + 1)))
    obtain ⟨n, hn⟩ := exists_floorMod_mul (leading r - p + 1) a
      (halfAway (r / 10 ^ (leading r - p + 1)))
    rw [← ha, show _ * _ = q from hq, show _ * _ = r from hr] at hn
    obtain ⟨hlow, hhigh⟩ := floorMod_bounds (q := q) hpos
    refine .inl ?_
    rcases hlow.eq_or_lt with hzero | hlow
    · rw [← hzero, rounded_zero]
    · have := leading_mono hlow hhigh.le
      rw [hn] at this ⊢
      exact rounded_mul (by omega)

/-- Rounding takes a remainder up to the divisor only from next to it. -/
theorem rounded_floorMod_eq_iff (hp : 0 < p) (hq : rounded p q = q) (hr : rounded p r = r)
    (hpos : 0 < r) : rounded p (floorMod q r) = r ↔ q < 0 ∧ 2 * |q| ≤ spacingBelow p r := by
  have hnear : q < 0 → |q| < r →
      (rounded p (floorMod q r) = r ↔ 2 * |q| ≤ spacingBelow p r) := by
    intro hneg hlt
    rw [abs_of_neg hneg] at hlt ⊢
    have hmod : floorMod q r = q + r :=
      floorMod_eq (-1) (by push_cast; ring) (.inl ⟨by linarith, by linarith⟩)
    rw [hmod, rounded_eq_iff hp hr (by linarith) (by linarith)]
    constructor <;> intro h <;> linarith
  constructor
  · intro h
    rcases rounded_floorMod hq hr hpos with hexact | ⟨hneg, hlt⟩
    · have := (floorMod_bounds (q := q) hpos).2
      rw [← hexact, h] at this
      exact absurd this (lt_irrefl r)
    · exact ⟨hneg, (hnear hneg hlt).mp h⟩
  · rintro ⟨hneg, hle⟩
    have hstep := spacingBelow_le hp hpos.ne'
    have := abs_pos.mpr hneg.ne
    rw [abs_of_pos hpos] at hstep
    exact (hnear hneg (by linarith)).mpr hle

/-! ### Both signs of the divisor -/

theorem rounded_floorMod_neg_neg (p : Nat) (q r : Rat) :
    rounded p (floorMod (-q) (-r)) = -rounded p (floorMod q r) := by
  rw [floorMod_neg_neg, rounded_neg]

theorem rounded_floorMod_nonneg (p : Nat) (hr : 0 < r) : 0 ≤ rounded p (floorMod q r) :=
  rounded_nonneg p (floorMod_bounds hr).1

theorem rounded_floorMod_le (hp : 0 < p) (h : rounded p r = r) (hr : 0 < r) :
    rounded p (floorMod q r) ≤ r :=
  (rounded_mono hp (floorMod_bounds hr).2.le).trans_eq h

theorem rounded_floorMod_nonpos (p : Nat) (hr : r < 0) : rounded p (floorMod q r) ≤ 0 := by
  have := rounded_floorMod_nonneg (q := -q) p (neg_pos.mpr hr)
  rw [rounded_floorMod_neg_neg] at this
  linarith

theorem le_rounded_floorMod (hp : 0 < p) (h : rounded p r = r) (hr : r < 0) :
    r ≤ rounded p (floorMod q r) := by
  have := rounded_floorMod_le (q := -q) hp (by rw [rounded_neg, h]) (neg_pos.mpr hr)
  rw [rounded_floorMod_neg_neg] at this
  linarith

/-- Whatever the dividend, the rounded remainder does not lie beyond the divisor. -/
theorem rounded_floorMod_within (q : Rat) (hp : 0 < p) (h : rounded p r = r) :
    (0 < r → 0 ≤ rounded p (floorMod q r) ∧ rounded p (floorMod q r) ≤ r) ∧
      (r < 0 → r ≤ rounded p (floorMod q r) ∧ rounded p (floorMod q r) ≤ 0) :=
  ⟨fun hr => ⟨rounded_floorMod_nonneg p hr, rounded_floorMod_le hp h hr⟩,
    fun hr => ⟨le_rounded_floorMod hp h hr, rounded_floorMod_nonpos p hr⟩⟩

/-- The rounded remainder is zero or has the sign of the divisor. -/
theorem rounded_floorMod_sign (p : Nat) (hr : r ≠ 0) :
    rounded p (floorMod q r) = 0 ∨ 0 < rounded p (floorMod q r) * r := by
  rcases eq_or_ne (rounded p (floorMod q r)) 0 with hzero | hne
  · exact .inl hzero
  refine .inr ?_
  rcases hr.lt_or_gt with hneg | hpos
  · exact mul_pos_of_neg_of_neg (lt_of_le_of_ne (rounded_floorMod_nonpos p hneg) hne) hneg
  · exact mul_pos (lt_of_le_of_ne (rounded_floorMod_nonneg p hpos) hne.symm) hpos

theorem abs_rounded_floorMod_le (q : Rat) (hp : 0 < p) (h : rounded p r = r) (hr : r ≠ 0) :
    |rounded p (floorMod q r)| ≤ |r| := by
  obtain ⟨habove, hbelow⟩ := rounded_floorMod_within q hp h
  rcases hr.lt_or_gt with hneg | hpos
  · obtain ⟨hge, hle⟩ := hbelow hneg
    rw [abs_of_nonpos hle, abs_of_neg hneg]
    exact neg_le_neg hge
  · obtain ⟨hge, hle⟩ := habove hpos
    rwa [abs_of_nonneg hge, abs_of_pos hpos]

theorem rounded_floorMod_eq_divisor_iff (hp : 0 < p) (hq : rounded p q = q) (h : rounded p r = r)
    (hr : r ≠ 0) :
    rounded p (floorMod q r) = r ↔ q * r < 0 ∧ 2 * |q| ≤ spacingBelow p r := by
  rcases hr.lt_or_gt with hneg | hpos
  · have hback := rounded_floorMod_eq_iff (q := -q) hp (by rw [rounded_neg, hq])
      (by rw [rounded_neg, h]) (neg_pos.mpr hneg)
    rw [rounded_floorMod_neg_neg, neg_inj, abs_neg, spacingBelow_neg, neg_lt_zero] at hback
    rw [hback, ← mul_pos_iff_of_pos_right (neg_pos.mpr hneg), mul_neg, neg_pos]
  · rw [rounded_floorMod_eq_iff hp hq h hpos, ← neg_pos (a := q),
      ← mul_pos_iff_of_pos_right hpos, neg_mul, neg_pos]

/-! ## The operator -/

namespace Operator

variable {op : Operator} {x y : Decimal}

theorem apply_modulo_zero (hid : op.id = .modulo) (x : Decimal) (hy : y.toRat = 0) :
    op.apply p [.finite x, .finite y] = .error .moduloByZero := by
  have hzero : (Number.finite y).isZero = true :=
    beq_iff_eq.mpr (Decimal.toRat_eq_zero_iff.mp hy)
  rw [apply_two, hid, OperatorId.applyTwo, if_pos hzero]

/-- Where the multiple that is taken off is above the range, nothing finite is
left. -/
theorem apply_modulo_overflow (hid : op.id = .modulo) (hx : x.InRange) (hy : y.InRange)
    (hne : y.toRat ≠ 0) (hover : Number.exponentLimit < leading (floorMultiple x.toRat y.toRat)) :
    op.apply p [.finite x, .finite y] = .error (.unbounded "modulo failed") := by
  have hc : y.coeff ≠ 0 := mt Decimal.toRat_of_zero hne
  have hz : (Number.finite y).isZero = false := beq_eq_false_iff_ne.mpr hc
  rw [apply_two, hid]
  simp only [OperatorId.applyTwo, hz, Bool.false_eq_true, if_false, Number.mod, hc,
    (Number.multipleOverflows_iff hx hy hne).mpr hover, if_true]
  rfl

theorem apply_modulo_roundsOnce (hid : op.id = .modulo) (hx : x.InRange) (hy : y.InRange)
    (hne : y.toRat ≠ 0) (hwithin : leading (floorMultiple x.toRat y.toRat) ≤ Number.exponentLimit) :
    (op.apply p [.finite x, .finite y]).RoundsOnce p (floorMod x.toRat y.toRat) := by
  rw [apply_two, hid]
  exact OperatorId.applyTwo_roundsOnce p (if_neg hne) fun _ =>
    Bool.eq_false_iff.mpr (mt (Number.multipleOverflows_iff hx hy hne).mp (not_lt.mpr hwithin))

end Operator

end Reckoner
