/-
# Arithmetic that rounds once

Every operation gives the exact result, that of the numbers which its operands
denote, rounded a single time:

    operation    what has to be seen besides the exact result
    sum          of two numbers that lie far apart, the smaller one is replaced by
                 one unit: the sum stays between the same two multiples of ten
                 units, and rounding sees no more (`rounded_far`)
    product      nothing
    quotient     it is scaled until its whole part has more than `p` digits, or
                 until it is a whole number

Nothing is said of the size of the operands or of how many digits they have.
Where the exact result is `Representable` at the precision, rounding leaves it as
it is (`Representable.rounded_eq`).
-/
import Reckoner.Proofs.Decimal.Nearest

namespace Reckoner

/-- A decimal of at most `p` digits is not rounded. -/
theorem Decimal.rounded_eq {p : Nat} {x : Decimal} (hp : 0 < p) (h : x.significant ≤ p) :
    rounded p x.toRat = x.toRat := by
  rw [← toRat_round_eq, toRat_round hp h]

/-- What is representable at a precision is not rounded. -/
theorem Representable.rounded_eq {p : Nat} {q : Rat} (hp : 0 < p) (h : Representable p q) :
    rounded p q = q := by
  obtain ⟨x, hx, -, rfl⟩ := h
  exact Decimal.rounded_eq hp hx

namespace Decimal

variable {x y : Decimal} {p : Nat}

/-! ## Sums -/

/-- The unit of a sum: the lower of the two exponents. -/
def sumUnit (x y : Decimal) : Int := if x.exp ≤ y.exp then x.exp else y.exp

theorem sumUnit_le (x y : Decimal) : x.sumUnit y ≤ x.exp ∧ x.sumUnit y ≤ y.exp := by
  unfold sumUnit
  split <;> omega

theorem toRat_add (x y : Decimal) : (x.add y).toRat = x.toRat + y.toRat := by
  obtain ⟨hx, hy⟩ := sumUnit_le x y
  unfold add
  rw [show (if x.exp ≤ y.exp then x.exp else y.exp) = x.sumUnit y from rfl]
  dsimp only
  rw [toRat_eq_coeffAt x hx, toRat_eq_coeffAt y hy, ← Rat.add_mul, ← Rat.intCast_add]
  split
  · next h => rw [h, Rat.intCast_zero, Rat.zero_mul, toRat_of_zero rfl]
  · exact toRat_natAbs _ _

/-- Next to a multiple of a unit, with more than `p` digits at that unit, it does
not matter by how much less than the unit a number is above or below. -/
theorem rounded_far {a : Nat} {e : Int} {l l' : Rat} (ha : pow10 p < a)
    (hl : 0 < l ∧ l < 10 ^ e) (hl' : 0 < l' ∧ l' < 10 ^ e) :
    rounded p (a * 10 ^ e + l) = rounded p (a * 10 ^ e + l') ∧
      rounded p (a * 10 ^ e - l) = rounded p (a * 10 ^ e - l') := by
  have hpos := ten_zpow_pos e
  have ha' : (10 : Rat) ^ p + 1 ≤ a := by exact_mod_cast ha
  have hten : (10 : Rat) ^ (e + p) = 10 ^ p * 10 ^ e := by
    rw [Rat.zpow_add (by decide), Rat.zpow_natCast, mul_comm]
  have hlarge : 10 ^ p * (10 : Rat) ^ e + 10 ^ e ≤ a * 10 ^ e := by
    have := mul_le_mul_of_nonneg_right ha' hpos.le
    linarith
  have hpow : (0 : Rat) < 10 ^ p * 10 ^ e := hten ▸ ten_zpow_pos _
  have hleading : ∀ q : Rat, 10 ^ p * (10 : Rat) ^ e ≤ q → e + p ≤ leading q := by
    intro q hq
    have hlt := lt_ten_zpow_leading q
    rw [abs_of_pos (hpow.trans_le hq)] at hlt
    have := ten_zpow_lt (hten ▸ hq.trans_lt hlt)
    omega
  have habove : ∀ t : Rat, 0 < t ∧ t < 10 ^ e → ((a * 10 ^ e + t) / 10 ^ e).floor = (a : Int) := by
    intro t ⟨h0, h1⟩
    refine floor_eq ?_ ?_
    · rw [le_div_iff₀ hpos, Rat.intCast_natCast]
      linarith
    · rw [div_lt_iff₀ hpos, Rat.intCast_natCast]
      linarith
  have hbelow : ∀ t : Rat, 0 < t ∧ t < 10 ^ e →
      ((a * 10 ^ e - t) / 10 ^ e).floor = (a : Int) - 1 := by
    intro t ⟨h0, h1⟩
    refine floor_eq ?_ ?_
    · rw [le_div_iff₀ hpos, Rat.intCast_sub, Rat.intCast_natCast, Rat.intCast_one]
      linarith
    · rw [div_lt_iff₀ hpos, Rat.intCast_sub, Rat.intCast_natCast, Rat.intCast_one]
      linarith
  constructor
  · refine rounded_congr_floor (by linarith) (by linarith) ?_ (hleading _ (by linarith))
    rw [habove l hl, habove l' hl']
  · refine rounded_congr_floor (by linarith) (by linarith) ?_ (hleading _ (by linarith))
    rw [hbelow l hl, hbelow l' hl']

/-- The same with signs. -/
theorem rounded_far_signed {a : Nat} {e : Int} {h l l' : Rat} (hh : h = a * 10 ^ e)
    (ha : pow10 p < a) (hl : 0 < l ∧ l < 10 ^ e) (hl' : 0 < l' ∧ l' < 10 ^ e) (s t : Bool) :
    rounded p ((if s then -h else h) + if t then -l else l) =
      rounded p ((if s then -h else h) + if t then -l' else l') := by
  obtain ⟨hplus, hminus⟩ := rounded_far ha hl hl'
  rw [← hh] at hplus hminus
  cases s <;> cases t <;> simp only [Bool.false_eq_true, if_false, if_true]
  · exact hplus
  · rwa [← sub_eq_add_neg, ← sub_eq_add_neg]
  · rw [neg_add_eq_sub, neg_add_eq_sub, ← neg_sub h, ← neg_sub h, rounded_neg, rounded_neg, hminus]
  · rw [← neg_add, ← neg_add, rounded_neg, rounded_neg, hplus]

/-- At a unit that is `k` places below its own, a decimal has `k` digits more. -/
theorem pow10_le_coeffAt (hx : x.coeff ≠ 0) {k : Nat} {e : Int} (he : x.exp = e + k) :
    pow10 (x.digits - 1 + k) ≤ (x.coeffAt e).natAbs := by
  rw [natAbs_coeffAt, he, show (e + k - e).toNat = k by omega, pow10_add]
  exact Nat.mul_le_mul_right _ (pow10_digitCount_le hx)

theorem toRat_addAligned (p : Nat) {hi lo : Decimal} (hhi : hi.coeff ≠ 0) (hlo : lo.coeff ≠ 0) :
    (addAligned p hi lo).toRat = rounded p (hi.toRat + lo.toRat) := by
  unfold addAligned
  dsimp only
  split
  case isFalse => rw [toRat_round_eq, toRat_add]
  case isTrue hfar =>
    obtain ⟨k, hk⟩ : ∃ k, p + 2 - hi.digits = k := ⟨_, rfl⟩
    obtain ⟨e, he⟩ : ∃ e, e = hi.exp - k := ⟨_, rfl⟩
    have hunit : hi.exp - ((p + 2 - hi.digits + 1 : Nat) : Int) = e - 1 := by omega
    rw [hunit] at hfar ⊢
    have hone : 0 < (10 : Rat) ^ (e - 1) ∧ (10 : Rat) ^ (e - 1) < 10 ^ e := by
      refine ⟨ten_zpow_pos _, ?_⟩
      rw [ten_zpow_eq (show e - 1 ≤ e by omega), show (e - (e - 1)).toNat = 1 by omega]
      have := ten_zpow_pos (e - 1)
      rw [show pow10 1 = 10 from rfl, Nat.cast_ofNat]
      linarith
    have hsmall : 0 < lo.abs.toRat ∧ lo.abs.toRat < 10 ^ e := by
      refine ⟨toRat_abs_pos hlo, (toRat_abs_lt lo).trans_le (ten_zpow_le ?_)⟩
      rw [magnitude]
      omega
    have hlarge : pow10 p < (hi.coeffAt e).natAbs :=
      Nat.lt_of_lt_of_le (pow10_lt_pow10.mpr (by omega))
        (pow10_le_coeffAt hhi (show hi.exp = e + k by omega))
    have hhi' : hi.abs.toRat = (hi.coeffAt e).natAbs * 10 ^ e := by
      rw [toRat_eq_coeffAt hi.abs (show e ≤ hi.exp by omega), natAbs_coeffAt]
      rfl
    rw [toRat_round_eq, toRat_add, toRat_power, toRat_abs hi, toRat_abs lo]
    exact rounded_far_signed hhi' hlarge hone hsmall _ _

theorem toRat_addRounded (p : Nat) (x y : Decimal) :
    (x.addRounded p y).toRat = rounded p (x.toRat + y.toRat) := by
  unfold addRounded
  split
  · next h0 =>
      simp only [Bool.and_eq_true, decide_eq_true_eq] at h0
      rw [toRat_of_zero h0.1, toRat_of_zero h0.2, toRat_of_zero rfl, add_zero, rounded_zero]
  · split
    · next hx => rw [toRat_of_zero hx, zero_add, toRat_round_eq]
    · next hx =>
        split
        · next hy => rw [toRat_of_zero hy, add_zero, toRat_round_eq]
        · next hy =>
            split
            · rw [toRat_addAligned p hy hx, add_comm]
            · exact toRat_addAligned p hx hy

theorem toRat_subRounded (p : Nat) (x y : Decimal) :
    (x.subRounded p y).toRat = rounded p (x.toRat - y.toRat) := by
  rw [subRounded, toRat_addRounded, toRat_neg, sub_eq_add_neg]

/-! ## Products -/

theorem toRat_mul (x y : Decimal) : (x.mul y).toRat = x.toRat * y.toRat := by
  obtain ⟨s, c, e⟩ := x
  obtain ⟨t, d, f⟩ := y
  simp only [toRat, mul, Rat.natCast_mul, Rat.zpow_add (show (10 : Rat) ≠ 0 by decide)]
  cases s <;> cases t <;> simp only [bne_self_eq_false, Bool.false_bne, Bool.true_bne,
    Bool.not_false, Bool.false_eq_true, if_false, if_true] <;> grind

theorem toRat_mulRounded (p : Nat) (x y : Decimal) :
    (x.mulRounded p y).toRat = rounded p (x.toRat * y.toRat) := by
  rw [mulRounded, toRat_round_eq, toRat_mul]

/-! ## Quotients -/

theorem toRat_mul_natCast (negative : Bool) (c d : Nat) (e : Int) :
    (Decimal.mk negative c e).toRat * d = (Decimal.mk negative (c * d) e).toRat := by
  simp only [toRat, Rat.natCast_mul]
  split <;> grind

/-- Scaled by enough zeros, a quotient of natural numbers has more than `p` digits
before the point. -/
theorem pow10_le_scaled (p : Nat) {n d : Nat} (hn : n ≠ 0) (hd : d ≠ 0) :
    pow10 p ≤ n * pow10 (p + 1 + digitCount d - digitCount n) / d := by
  rw [Nat.le_div_iff_mul_le (Nat.pos_of_ne_zero hd)]
  have hpos := digitCount_pos n
  calc pow10 p * d
      ≤ pow10 p * pow10 (digitCount d) := Nat.mul_le_mul_left _ (lt_pow10_digitCount d).le
    _ = pow10 (p + digitCount d) := (pow10_add _ _).symm
    _ ≤ pow10 (digitCount n - 1 + (p + 1 + digitCount d - digitCount n)) :=
        pow10_le_pow10 (by omega)
    _ ≤ n * pow10 (p + 1 + digitCount d - digitCount n) := by
        rw [pow10_add]
        exact Nat.mul_le_mul_right _ (pow10_digitCount_le hn)

/-- The leading digit of a quotient is that of its whole part. -/
theorem leading_quotient {s d : Nat} (hd : d ≠ 0) (h : s / d ≠ 0) (f : Int) :
    leading ((s : Rat) / d * 10 ^ f) = f + digitCount (s / d) - 1 := by
  have hpos := ten_zpow_pos f
  have hd' : (0 : Rat) < d := Rat.natCast_pos.mpr (Nat.pos_of_ne_zero hd)
  have hcount := digitCount_pos (s / d)
  have hlow : pow10 (digitCount (s / d) - 1) * d ≤ s :=
    Nat.le_trans (Nat.mul_le_mul_right _ (pow10_digitCount_le h)) (Nat.div_mul_le_self s d)
  have hhigh : s < pow10 (digitCount (s / d)) * d :=
    (Nat.div_lt_iff_lt_mul (Nat.pos_of_ne_zero hd)).mp (lt_pow10_digitCount _)
  have hunit : ∀ k : Nat, (10 : Rat) ^ (f + k) = (pow10 k : Nat) * 10 ^ f := by
    intro k
    rw [ten_zpow_eq (show f ≤ f + k by omega), show (f + k - f).toNat = k by omega]
  have hnonneg : 0 ≤ (s : Rat) / d * 10 ^ f :=
    mul_nonneg (div_nonneg Rat.natCast_nonneg hd'.le) hpos.le
  refine leading_eq ?_ ?_ <;> rw [abs_of_nonneg hnonneg]
  · rw [show f + digitCount (s / d) - 1 = f + (digitCount (s / d) - 1 : Nat) by omega, hunit]
    refine mul_le_mul_of_nonneg_right ((le_div_iff₀ hd').mpr ?_) hpos.le
    exact_mod_cast hlow
  · rw [show f + digitCount (s / d) - 1 + 1 = f + (digitCount (s / d) : Nat) by omega, hunit]
    refine mul_lt_mul_of_pos_right ((div_lt_iff₀ hd').mpr ?_) hpos
    exact_mod_cast hhigh

theorem toRat_roundRatio (p : Nat) (negative : Bool) {n d : Nat} (hn : n ≠ 0) (hd : d ≠ 0)
    (e : Int) : (roundRatio p negative n d e).toRat =
      rounded p ((Decimal.mk negative n e).toRat / d) := by
  have hlong := pow10_le_scaled p hn hd
  unfold roundRatio
  dsimp only
  generalize p + 1 + digitCount d - digitCount n = k at hlong
  have hd' : (d : Rat) ≠ 0 := mt Rat.natCast_eq_zero_iff.mp hd
  have hdigits : p < digitCount (n * pow10 k / d) :=
    pow10_lt_pow10.mp (Nat.lt_of_le_of_lt hlong (lt_pow10_digitCount _))
  have hwhole : n * pow10 k / d ≠ 0 :=
    Nat.ne_of_gt (Nat.lt_of_lt_of_le (pow10_pos p) hlong)
  have hscale : (Decimal.mk false n e).toRat / d =
      ((n * pow10 k : Nat) : Rat) / d * 10 ^ (e - k) := by
    rw [← toRat_padded _ k]
    simp only [toRat, padded, Bool.false_eq_true, if_false]
    ring
  have hlead := leading_quotient hd hwhole (e - k)
  generalize n * pow10 k = s at *
  obtain ⟨j, hj⟩ : ∃ j, digitCount (s / d) - p = j := ⟨_, rfl⟩
  have hunit : e - k + digitCount (s / d) - 1 - p + 1 = e - k + j := by omega
  have habs : rounded p ((Decimal.mk false n e).toRat / d) =
      (halfUp s (d * pow10 j) : Nat) * 10 ^ (e - k + j) := by
    have hquotient : (s : Rat) / d * 10 ^ (e - k) / 10 ^ (e - k + j) =
        (s : Rat) / (d * pow10 j : Nat) := by
      have hpos := ten_zpow_pos (e - k)
      rw [Rat.zpow_add (by decide), Rat.zpow_natCast, pow10_eq]
      push_cast
      field_simp
    rw [hscale, rounded, hlead, hunit, roundedAt, hquotient,
      halfAway_div _ (Nat.mul_pos (Nat.pos_of_ne_zero hd) (pow10_pos j)), Rat.intCast_natCast]
  rw [hj, toRat_abs, toRat_abs ⟨negative, n, e⟩]
  cases negative
  · exact habs.symm
  · simp only [if_true, neg_div, rounded_neg]
    exact congrArg Neg.neg habs.symm

theorem toRat_ofRatio (p : Nat) (negative : Bool) (n : Nat) {d : Nat} (hd : d ≠ 0) (e : Int) :
    (ofRatio p negative n d e).toRat = rounded p ((Decimal.mk negative n e).toRat / d) := by
  have hd' : (d : Rat) ≠ 0 := mt Rat.natCast_eq_zero_iff.mp hd
  unfold ofRatio
  dsimp only
  split
  · next hn =>
      subst hn
      rw [toRat_of_zero rfl, toRat_of_zero rfl, zero_div, rounded_zero]
  · next hn =>
      split
      · next hdvd =>
          have hmul : (Decimal.mk negative (n * pow10 d.log2 / d) (e - d.log2)).toRat * d =
              (Decimal.mk negative n e).toRat := by
            rw [toRat_mul_natCast, Nat.div_mul_cancel (Nat.dvd_of_mod_eq_zero hdvd)]
            exact toRat_padded ⟨negative, n, e⟩ d.log2
          rw [toRat_round_eq, ← hmul, mul_div_cancel_right₀ _ hd']
      · exact toRat_roundRatio p negative hn hd e

theorem toRat_divRounded (p : Nat) (x : Decimal) (hy : y.coeff ≠ 0) :
    (x.divRounded p y).toRat = rounded p (x.toRat / y.toRat) := by
  have hquotient : x.toRat / y.toRat =
      (Decimal.mk (x.negative != y.negative) x.coeff (x.exp - y.exp)).toRat / y.coeff := by
    have hy' : (y.coeff : Rat) ≠ 0 := mt Rat.natCast_eq_zero_iff.mp hy
    have hunit : (10 : Rat) ^ y.exp ≠ 0 := Rat.ne_of_gt (ten_zpow_pos _)
    have hscale : (10 : Rat) ^ x.exp = 10 ^ (x.exp - y.exp) * 10 ^ y.exp := by
      rw [← Rat.zpow_add (by decide), Int.sub_add_cancel]
    obtain ⟨s, c, e⟩ := x
    obtain ⟨t, d, f⟩ := y
    simp only [toRat, hscale]
    cases s <;> cases t <;> simp only [bne_self_eq_false, Bool.false_bne, Bool.true_bne,
      Bool.not_false, Bool.false_eq_true, if_false, if_true] <;> grind
  rw [divRounded, toRat_ofRatio p _ _ hy, hquotient]

end Decimal

end Reckoner
