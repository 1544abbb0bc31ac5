/-
# Remainders and nearby integers

Both are the whole part of a quotient, and what it leaves.  At a unit that two
decimals have in common, the quotient of their magnitudes is one of whole
numbers,

    |x| = a · 10^e,   |y| = b · 10^e,   a = b · (a / b) + a % b

so the remainder is exact however long the quotient is (`magnitudeMod_eq`).  The
floored remainder follows by the signs.  An integer near to `x` is the case
where the divisor is a power of ten: the whole part is what is cut off, or is
one less than what is raised.

`floorMod` and `awayFromZero` are the exact results, on rational numbers.
-/
import Reckoner.Proofs.Decimal.Arithmetic

namespace Reckoner

/-- The floored remainder. -/
def floorMod (q r : Rat) : Rat := q - r * (q / r).floor

/-- The nearest integer that is at least as far from zero, on the same side. -/
def awayFromZero (q : Rat) : Int := if 0 ≤ q then q.ceil else q.floor

/-! ## Floored remainders of rational numbers -/

/-- A remainder that lies between zero and the divisor is the floored one. -/
theorem floorMod_eq {q r s : Rat} (k : Int) (h : q = r * k + s)
    (hs : 0 ≤ s ∧ s < r ∨ r < s ∧ s ≤ 0) : floorMod q r = s := by
  have hr : r ≠ 0 := by grind
  have hquotient : q / r = k + s / r := by
    rw [h, Rat.div_def, Rat.div_def, Rat.add_mul, Rat.mul_comm r, Rat.mul_assoc,
      Rat.mul_inv_cancel r hr, Rat.mul_one]
  have hrest : s / r * r = s := Rat.div_mul_cancel hr
  have hbounds : 0 ≤ s / r ∧ s / r < 1 := by
    generalize s / r = t at hrest
    rcases hs with ⟨h0, h1⟩ | ⟨h0, h1⟩
    · have hpos : 0 < r := by grind
      refine ⟨Rat.le_of_mul_le_mul_right ?_ hpos, (Rat.mul_lt_mul_right hpos).mp ?_⟩ <;> grind
    · have hpos : 0 < -r := by grind
      refine ⟨Rat.le_of_mul_le_mul_right ?_ hpos, (Rat.mul_lt_mul_right hpos).mp ?_⟩ <;> grind
  have hfloor : (q / r).floor = k := by
    rw [hquotient]
    exact floor_eq (by grind) (by grind)
  unfold floorMod
  rw [hfloor, h]
  grind

/-- The floored remainder of signed magnitudes: it has the sign of the divisor,
so with the other sign the remainder of the magnitudes is taken from the
divisor. -/
theorem floorMod_signed {a b r : Rat} {k : Int} (h : a = b * k + r) (h0 : 0 ≤ r) (h1 : r < b)
    (s t : Bool) :
    floorMod (if s then -a else a) (if t then -b else b) =
      if r = 0 then 0
      else if s = t then if t then -r else r
      else (if t then -b else b) + if s then -r else r := by
  by_cases hr : r = 0
  · rw [if_pos hr]
    cases s <;> cases t <;> simp only [Bool.false_eq_true, if_false, if_true]
    · exact floorMod_eq k (by grind) (by grind)
    · exact floorMod_eq (-k) (by grind) (by grind)
    · exact floorMod_eq (-k) (by grind) (by grind)
    · exact floorMod_eq k (by grind) (by grind)
  · rw [if_neg hr]
    cases s <;> cases t <;> simp only [Bool.false_eq_true, reduceCtorEq, if_false, if_true]
    · exact floorMod_eq k (by grind) (by grind)
    · exact floorMod_eq (-k - 1) (by grind) (by grind)
    · exact floorMod_eq (-k - 1) (by grind) (by grind)
    · exact floorMod_eq k (by grind) (by grind)

theorem floorMod_neg_neg (q r : Rat) : floorMod (-q) (-r) = -floorMod q r := by
  rw [floorMod, floorMod, neg_div_neg_eq]
  ring

theorem floorMod_bounds {q r : Rat} (hr : 0 < r) : 0 ≤ floorMod q r ∧ floorMod q r < r := by
  obtain ⟨hle, hlt⟩ := floor_bounds (q / r)
  rw [le_div_iff₀ hr] at hle
  rw [div_lt_iff₀ hr] at hlt
  unfold floorMod
  constructor <;> linarith

theorem abs_floorMod_lt (q : Rat) {r : Rat} (hr : r ≠ 0) : |floorMod q r| < |r| := by
  have hpos : ∀ {q r : Rat}, 0 < r → |floorMod q r| < |r| := by
    intro q r hr
    obtain ⟨hlow, hhigh⟩ := floorMod_bounds (q := q) hr
    rwa [abs_of_nonneg hlow, abs_of_pos hr]
  rcases hr.lt_or_gt with hneg | h
  · have := hpos (q := -q) (neg_pos.mpr hneg)
    rwa [floorMod_neg_neg, abs_neg, abs_neg] at this
  · exact hpos h

/-! ## Remainders -/

theorem powMod_eq (b k m : Nat) : powMod b k m = b ^ k % m := by
  induction b, k using powMod.induct m with
  | case1 b => rw [powMod, if_pos rfl, Nat.pow_zero]
  | case2 b k hk hodd ih =>
      have hsplit : b ^ k = b * (b * b) ^ (k / 2) := by
        rw [← Nat.pow_two, ← Nat.pow_mul, Nat.mul_comm b, ← Nat.pow_succ]
        congr 1
        omega
      rw [powMod, if_neg hk, ih, hsplit]
      dsimp only
      rw [if_pos hodd, Nat.mul_mod, Nat.pow_mod, Nat.mod_mod, Nat.mod_mod, ← Nat.pow_mod,
        ← Nat.mul_mod]
  | case3 b k hk heven ih =>
      have hsplit : b ^ k = (b * b) ^ (k / 2) := by
        rw [← Nat.pow_two, ← Nat.pow_mul]
        congr 1
        omega
      rw [powMod, if_neg hk, ih, hsplit]
      dsimp only
      rw [if_neg heven, Nat.pow_mod, Nat.mod_mod, ← Nat.pow_mod]

namespace Decimal

variable {x y : Decimal} {p : Nat}

/-- The remainder of the magnitudes is that of their coefficients at the common
unit. -/
theorem magnitudeMod_eq (x y : Decimal) :
    magnitudeMod x y = ⟨false, (x.coeffAt (x.sumUnit y)).natAbs %
      (y.coeffAt (x.sumUnit y)).natAbs, x.sumUnit y⟩ := by
  have hzero : pow10 (0 : Int).toNat = 1 := rfl
  rw [natAbs_coeffAt, natAbs_coeffAt]
  unfold magnitudeMod
  split
  · next he =>
      have hunit : x.sumUnit y = y.exp := by
        unfold sumUnit
        split <;> omega
      rw [hunit, Int.sub_self, hzero, Nat.mul_one, powMod_eq, Nat.mul_mod_mod]
      rfl
  · next he =>
      have hunit : x.sumUnit y = x.exp := if_pos (by omega)
      rw [hunit, Int.sub_self, hzero, Nat.mul_one]
      dsimp only
      split
      · next hshort =>
          -- with fewer digits than there are zeros behind `y`, `x` is its own remainder
          by_cases hy : y.coeff = 0
          · rw [hy, Nat.zero_mul, Nat.mod_zero]
            rfl
          · rw [Nat.mod_eq_of_lt]
            · rfl
            · refine Nat.lt_of_lt_of_le (lt_pow10_digitCount x.coeff) ?_
              refine Nat.le_trans (pow10_le_pow10 (Nat.le_of_lt hshort)) ?_
              exact Nat.le_mul_of_pos_left _ (Nat.pos_of_ne_zero hy)
      · rfl

/-- The remainder of the magnitudes, as rational numbers. -/
theorem magnitudeMod_spec (x : Decimal) (hy : y.coeff ≠ 0) :
    ∃ k : Nat, x.abs.toRat = y.abs.toRat * (k : Int) + (magnitudeMod x y).toRat ∧
      0 ≤ (magnitudeMod x y).toRat ∧ (magnitudeMod x y).toRat < y.abs.toRat := by
  obtain ⟨hx', hy'⟩ := sumUnit_le x y
  have hunit := ten_zpow_pos (x.sumUnit y)
  have habs : ∀ z : Decimal, x.sumUnit y ≤ z.exp →
      z.abs.toRat = ((z.coeffAt (x.sumUnit y)).natAbs : Nat) * 10 ^ x.sumUnit y := by
    intro z hz
    rw [toRat_eq_coeffAt z.abs hz, natAbs_coeffAt]
    rfl
  have hpos : 0 < (y.coeffAt (x.sumUnit y)).natAbs := by
    rw [natAbs_coeffAt]
    exact Nat.mul_pos (Nat.pos_of_ne_zero hy) (pow10_pos _)
  rw [magnitudeMod_eq, habs x hx', habs y hy']
  generalize (x.coeffAt (x.sumUnit y)).natAbs = a
  generalize (y.coeffAt (x.sumUnit y)).natAbs = b at hpos
  refine ⟨a / b, ?_, Rat.mul_nonneg Rat.natCast_nonneg (Rat.le_of_lt hunit),
    Rat.mul_lt_mul_of_pos_right (Rat.natCast_lt_natCast.mpr (Nat.mod_lt a hpos)) hunit⟩
  have hdiv : (a : Rat) = b * (a / b : Nat) + (a % b : Nat) := by
    rw [← Rat.natCast_mul, ← Rat.natCast_add, Nat.div_add_mod]
  simp only [toRat, Bool.false_eq_true, if_false, Rat.intCast_natCast]
  generalize ((a / b : Nat) : Rat) = k at hdiv ⊢
  rw [hdiv]
  grind

/-- The remainder is the exact one, rounded once. -/
theorem toRat_modRounded (p : Nat) (x : Decimal) (hy : y.coeff ≠ 0) :
    (x.modRounded p y).toRat = rounded p (floorMod x.toRat y.toRat) := by
  obtain ⟨k, hsplit, hlow, hhigh⟩ := magnitudeMod_spec x hy
  have hsign : ∀ s, ({ magnitudeMod x y with negative := s } : Decimal).toRat =
      if s then -(magnitudeMod x y).toRat else (magnitudeMod x y).toRat := by
    intro s
    rw [magnitudeMod_eq]
    cases s
    · rfl
    · exact toRat_neg ⟨false, _, _⟩
  unfold modRounded
  split
  · next hx =>
      have hzero : floorMod 0 y.toRat = 0 := by
        refine floorMod_eq 0 (by grind) ?_
        have hne : y.toRat ≠ 0 := mt toRat_eq_zero_iff.mp hy
        grind
      rw [toRat_of_zero hx, hzero, rounded_zero]
  · dsimp only
    generalize magnitudeMod x y = r at hsplit hlow hhigh hsign ⊢
    rw [toRat_abs x, toRat_abs y, floorMod_signed hsplit hlow hhigh]
    by_cases hr : r.coeff = 0
    · rw [if_pos hr, if_pos (toRat_of_zero hr), rounded_zero]
      exact toRat_of_zero rfl
    · rw [if_neg hr, if_neg (mt toRat_eq_zero_iff.mp hr)]
      split
      · next hst => rw [toRat_round_eq, hsign]
      · next hst => rw [toRat_addRounded, hsign, toRat_abs y]

/-! ## Nearby integers -/

/-- The integers around a quotient of natural numbers. -/
theorem floor_ceil_of_mul {q : Rat} {n d : Nat} (hd : 0 < d) (h : q * d = n) :
    q.floor = ((n / d : Nat) : Int) ∧
      q.ceil = ((if n % d = 0 then n / d else n / d + 1 : Nat) : Int) := by
  have hd' : (0 : Rat) < d := Rat.natCast_pos.mpr hd
  have hdiv : (n : Rat) = d * (n / d : Nat) + (n % d : Nat) := by
    rw [← Rat.natCast_mul, ← Rat.natCast_add, Nat.div_add_mod]
  have hlow : (0 : Rat) ≤ (n % d : Nat) := Rat.natCast_nonneg
  have hhigh : ((n % d : Nat) : Rat) < d := Rat.natCast_lt_natCast.mpr (Nat.mod_lt n hd)
  have hle : ((n / d : Nat) : Rat) ≤ q := Rat.le_of_mul_le_mul_right (by grind) hd'
  have hlt : q < (n / d : Nat) + 1 := (Rat.mul_lt_mul_right hd').mp (by grind)
  refine ⟨floor_eq (by rwa [Rat.intCast_natCast]) (by rwa [Rat.intCast_natCast]), ?_⟩
  split
  · next h0 =>
      rw [h0, Rat.natCast_ofNat] at hdiv
      have heq : q = (n / d : Nat) :=
        Rat.le_antisymm (Rat.le_of_mul_le_mul_right (by grind) hd') hle
      rw [heq, ← Rat.intCast_natCast, Rat.ceil_intCast]
  · next h0 =>
      have hpos : (0 : Rat) < (n % d : Nat) := Rat.natCast_pos.mpr (Nat.pos_of_ne_zero h0)
      refine ceil_eq ?_ ?_ <;> rw [Rat.intCast_natCast, Rat.natCast_add]
      · have : ((n / d : Nat) : Rat) < q := (Rat.mul_lt_mul_right hd').mp (by grind)
        grind
      · grind

theorem toRat_toIntegral (outward : Bool) (x : Decimal) :
    (x.toIntegral outward).toRat =
      if x.negative then -((if outward then x.abs.toRat.ceil else x.abs.toRat.floor : Int) : Rat)
      else (if outward then x.abs.toRat.ceil else x.abs.toRat.floor : Int) := by
  have hnat : ∀ (s : Bool) (n : Nat), (Decimal.mk s n 0).toRat =
      if s then -((n : Int) : Rat) else (n : Int) := by
    intro s n
    simp only [toRat, Rat.zpow_zero, Rat.mul_one, Rat.intCast_natCast]
  unfold toIntegral
  split
  · next he =>
      have hwhole : x.abs.toRat = ((x.coeff * pow10 x.exp.toNat : Nat) : Int) := by
        rw [toRat_eq_coeffAt x.abs he, Rat.zpow_zero, Rat.mul_one]
        simp only [coeffAt, abs, Int.sub_zero, Bool.false_eq_true, if_false]
      rw [toRat_abs x, hwhole, Rat.ceil_intCast, Rat.floor_intCast, ite_self]
  · next he =>
      dsimp only
      have hscale : x.abs.toRat * (pow10 (-x.exp).toNat : Nat) = x.coeff := by
        have hunit := ten_zpow_eq (show x.exp ≤ 0 by omega)
        rw [Rat.zpow_zero, Int.zero_sub] at hunit
        simp only [toRat, abs, Bool.false_eq_true, if_false]
        grind
      obtain ⟨hfloor, hceil⟩ := floor_ceil_of_mul (pow10_pos _) hscale
      rw [hfloor, hceil]
      split
      · next hshort =>
          have hlt : x.coeff < pow10 (-x.exp).toNat :=
            Nat.lt_trans (lt_pow10_digitCount x.coeff) (pow10_lt_pow10.mpr hshort)
          rw [hnat, Nat.div_eq_of_lt hlt, Nat.mod_eq_of_lt hlt]
          cases outward <;> by_cases hc : x.coeff = 0 <;> simp [hc]
      · rw [hnat]
        cases outward <;> by_cases hc : x.coeff % pow10 (-x.exp).toNat = 0 <;> simp [hc]

theorem toRat_floor (x : Decimal) : x.floor.toRat = x.toRat.floor := by
  rw [floor, toRat_toIntegral, toRat_abs x]
  cases x.negative
  · rfl
  · simp only [if_true, Rat.ceil_eq_neg_floor_neg, Rat.intCast_neg, Rat.neg_neg]

theorem toRat_ceil (x : Decimal) : x.ceil.toRat = x.toRat.ceil := by
  rw [ceil, toRat_toIntegral, toRat_abs x]
  cases x.negative
  · rfl
  · simp only [Bool.not_true, Bool.false_eq_true, if_false, if_true, Rat.ceil_eq_neg_floor_neg,
      Rat.intCast_neg, Rat.neg_neg]

theorem toRat_outward (x : Decimal) : x.outward.toRat = awayFromZero x.toRat := by
  have hnonneg := toRat_abs_nonneg x
  rw [outward, toRat_toIntegral, toRat_abs x, awayFromZero]
  cases x.negative
  · simp only [Bool.false_eq_true, if_false, if_true, hnonneg]
  · simp only [if_true]
    split
    · next h =>
        have hz : x.abs.toRat = 0 := by grind
        rw [hz]
        rfl
    · rw [Rat.ceil_eq_neg_floor_neg, Rat.intCast_neg, Rat.neg_neg]

end Decimal

end Reckoner
