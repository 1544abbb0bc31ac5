/-
# Nearby integers

Three functions give an integer near to a number `x`:

    floor    the greatest one that is at most `x`
    ceil     the least one that is at least `x`
    round    the one of least magnitude on the side of `x` that is at least as far from zero

They cut off or raise the digits behind the point and touch no other, so the result is exact
however many digits the number has and whatever its exponent is, and it is the same at every
precision (`nearby_exact`).  `round` is not the nearest integer: it goes away from zero, so it is
`ceil` on the positive side and `floor` on the negative one (`Decimal.outward_eq`).

A zero keeps the sign of the number it came from, which is why the laws of signs below are
equations between results and not between the numbers they denote.
-/
import Mathlib.Data.Sign.Basic
import Mathlib.Order.Bounds.Defs
import Reckoner.Precision
import Reckoner.Proofs.Operation.Exact

namespace Reckoner

/-! ## Nearby integers of rational numbers -/

theorem isGreatest_floor (q : Rat) : IsGreatest {n : Int | (n : Rat) ≤ q} q.floor :=
  ⟨Rat.floor_le q, fun _ => Rat.le_floor_iff.mpr⟩

theorem isLeast_ceil (q : Rat) : IsLeast {n : Int | q ≤ n} q.ceil :=
  ⟨Rat.le_ceil, fun _ => Rat.ceil_le_iff.mpr⟩

/-- Going away from zero keeps the side, and keeps zero. -/
theorem sign_awayFromZero (q : Rat) : SignType.sign (awayFromZero q : Rat) = SignType.sign q := by
  unfold awayFromZero
  split
  · next h =>
      rcases h.eq_or_lt with rfl | hpos
      · rfl
      · rw [sign_pos hpos, sign_pos (hpos.trans_le Rat.le_ceil)]
  · next h =>
      have hneg := not_le.mp h
      rw [sign_neg hneg, sign_neg ((Rat.floor_le q).trans_lt hneg)]

theorem isLeast_natAbs_awayFromZero (q : Rat) :
    IsLeast {n : Nat | |q| ≤ n} (awayFromZero q).natAbs := by
  unfold awayFromZero
  split
  · next h =>
      have hceil : 0 ≤ q.ceil := Rat.intCast_nonneg.mp (h.trans Rat.le_ceil)
      rw [abs_of_nonneg h]
      constructor
      · have hcast : (q.ceil : Rat) = (q.ceil.natAbs : Nat) := by
          rw [← Int.cast_natCast, Int.natAbs_of_nonneg hceil]
        rw [Set.mem_ofPred_eq, ← hcast]
        exact Rat.le_ceil
      · intro n hn
        have : q.ceil ≤ n := Rat.ceil_le_iff.mpr (by exact_mod_cast hn)
        omega
  · next h =>
      have hneg := not_le.mp h
      have hfloor : q.floor < 0 := Rat.floor_lt_iff.mpr (by exact_mod_cast hneg)
      rw [abs_of_neg hneg]
      constructor
      · have hcast : -(q.floor : Rat) = (q.floor.natAbs : Nat) := by
          rw [← Int.cast_neg, ← Int.ofNat_natAbs_of_nonpos hfloor.le, Int.cast_natCast]
        rw [Set.mem_ofPred_eq, ← hcast]
        exact neg_le_neg (Rat.floor_le q)
      · intro n hn
        have : -(n : Int) ≤ q.floor := Rat.le_floor_iff.mpr (by push_cast; exact neg_le.mp hn)
        omega

namespace Decimal

variable {x : Decimal}

/-- Nearby integers of a magnitude do not depend on the sign. -/
theorem toIntegral_neg (x : Decimal) (outward : Bool) :
    x.neg.toIntegral outward = (x.toIntegral outward).neg := by
  by_cases he : 0 ≤ x.exp
  · simp only [toIntegral, neg, he, if_true]
  · by_cases hshort : digitCount x.coeff < (-x.exp).toNat
    · simp only [toIntegral, neg, digits, he, hshort, if_false, if_true]
      rfl
    · simp only [toIntegral, neg, digits, he, hshort, if_false]
      rfl

theorem ceil_eq_neg_floor_neg (x : Decimal) : x.ceil = x.neg.floor.neg := by
  have hneg : x.neg.negative = !x.negative := rfl
  rw [floor, hneg, toIntegral_neg, neg, neg, Bool.not_not, ceil]

theorem exp_toIntegral_nonneg (x : Decimal) (outward : Bool) : 0 ≤ (x.toIntegral outward).exp := by
  by_cases he : 0 ≤ x.exp
  · rwa [toIntegral, if_pos he]
  · simp only [toIntegral, he, if_false]
    split <;> exact Int.le_refl 0

theorem exp_canonical_nonneg (h : 0 ≤ x.exp) : 0 ≤ x.canonical.exp := by
  by_cases hx : x.coeff = 0
  · rw [canonical_of_zero hx]
  · obtain ⟨k, -, he, -⟩ := canonical_spec hx
    omega

/-- An integer is left alone. -/
theorem toIntegral_toIntegral (x : Decimal) (outward : Bool) :
    ((x.toIntegral outward).canonical.toIntegral outward).canonical =
      (x.toIntegral outward).canonical := by
  rw [toIntegral, if_pos (exp_canonical_nonneg (exp_toIntegral_nonneg x outward)),
    canonical_canonical]

theorem toIntegral_of_zero (h : x.coeff = 0) (outward : Bool) :
    x.toIntegral outward = x.toIntegral true := by
  simp only [toIntegral, h, Nat.zero_mod, Nat.zero_div, ne_eq, not_true_eq_false, decide_false,
    Bool.and_false, Bool.false_eq_true, if_false]

/-- On the positive side to go away from zero is to go up, on the negative side it is to go down. -/
theorem outward_eq (x : Decimal) : x.outward = if 0 ≤ x.toRat then x.ceil else x.floor := by
  have habs := toRat_abs x
  cases hneg : x.negative with
  | false =>
      rw [hneg, if_neg Bool.false_ne_true] at habs
      rw [if_pos (habs ▸ toRat_abs_nonneg x), outward, ceil, hneg, Bool.not_false]
  | true =>
      split
      · next hpos =>
          -- only zero is on both sides
          rw [hneg, if_pos rfl] at habs
          have hzero : x.toRat = 0 := by
            have := toRat_abs_nonneg x
            grind
          exact (toIntegral_of_zero (toRat_eq_zero_iff.mp hzero) _).symm
      · rw [outward, floor, hneg]

end Decimal

namespace FunctionId

/-- Below, above and away from zero: each of the three functions gives its integer at every
precision.  Up and down are exchanged by a change of sign, and `round` is odd, changes nothing
when it is applied again, and agrees with the function that goes its way. -/
theorem nearby_exact (draw x : Decimal) :
    ∃ below above away : Int,
      IsGreatest {n : Int | (n : Rat) ≤ x.toRat} below ∧
      IsLeast {n : Int | x.toRat ≤ n} above ∧
      SignType.sign (away : Rat) = SignType.sign x.toRat ∧
      IsLeast {n : Nat | |x.toRat| ≤ n} away.natAbs ∧
      ∀ p : Precision,
        let value (id : FunctionId) (y : Decimal) := id.apply p.digits draw [.finite y]
        (value .floor x).Gives below ∧
        (value .ceil x).Gives above ∧
        (value .round x).Gives away ∧
        value .ceil x = (value .floor x.neg).map Number.neg ∧
        value .round x.neg = (value .round x).map Number.neg ∧
        (value .round x >>= fun y => apply p.digits draw .round [y]) = value .round x ∧
        value .round x = value (if 0 ≤ x.toRat then .ceil else .floor) x := by
  have hok : ∀ {y z : Decimal}, y = z →
      (Except.ok (.finite y.canonical) : Outcome) = .ok (.finite z.canonical) :=
    fun h => congrArg (fun y => Except.ok (Number.finite y.canonical)) h
  refine ⟨x.toRat.floor, x.toRat.ceil, awayFromZero x.toRat, isGreatest_floor _, isLeast_ceil _,
    sign_awayFromZero _, isLeast_natAbs_awayFromZero _, fun p => ?_⟩
  have hgives : ∀ {y : Decimal} {q : Rat}, y.toRat = q →
      Outcome.Gives (.ok (.finite y.canonical)) q :=
    fun {y} _ h => ⟨y.canonical, rfl, y.toRat_canonical.trans h⟩
  have hneg : ∀ {y z : Decimal}, y = z.neg →
      (Except.ok (.finite y.canonical) : Outcome) = .ok (.finite z.canonical.neg) := by
    rintro _ z rfl
    rw [z.canonical_neg]
  refine ⟨hgives x.toRat_floor, hgives x.toRat_ceil, hgives x.toRat_outward, ?_, ?_, ?_, ?_⟩
  · exact hneg x.ceil_eq_neg_floor_neg
  · exact hneg (x.toIntegral_neg true)
  · exact congrArg (fun y => Except.ok (Number.finite y)) (x.toIntegral_toIntegral true)
  · split
    · next h => exact hok (x.outward_eq.trans (if_pos h))
    · next h => exact hok (x.outward_eq.trans (if_neg h))

/-- Four digits stay where a precision of two would leave two. -/
example : apply 2 .zero .round [.finite ⟨true, 123401, -2⟩] = .ok (.finite ⟨true, 1235, 0⟩) := by
  decide +kernel

end FunctionId

end Reckoner
