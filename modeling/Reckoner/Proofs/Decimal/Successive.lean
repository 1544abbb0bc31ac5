/-
# Rounding a second time

A number is rounded to the unit `10^e`, and the result of that to a coarser unit
`10^f`.  Rounding to `10^f` looks for the halves of that unit, which are multiples
of `10^e`, so the first rounding can take a number to a half but never past one:

    the number of units, |q| / 10^f          rounded twice       rounded once
    from k - ½ to less than k + ½ - δ        k                   k
    from k + ½ - δ to less than k + ½        k + 1               k

where `δ = ½ · 10^(e - f)` is half of the finer unit.  In the second row, and
nowhere else, the two differ (`roundedAt_roundedAt`).

What the second rounding leaves alone is that the number has few digits
(`HasDigits.roundedAt`) and how high its leading digit stands
(`leading_le_leading_roundedAt`).
-/
import Reckoner.Proofs.Decimal.Nearest

namespace Reckoner

variable {q r : Rat} {e f : Int} {p : Nat}

/-! ## Magnitudes -/

theorem roundedAt_zero (e : Int) : roundedAt e 0 = 0 := by
  rw [roundedAt, zero_div, halfAway_zero, Rat.intCast_zero, zero_mul]

theorem roundedAt_nonneg (e : Int) (h : 0 ≤ q) : 0 ≤ roundedAt e q :=
  (roundedAt_zero e).symm.trans_le (roundedAt_mono e h)

/-- Rounding looks at the magnitude alone. -/
theorem abs_roundedAt (e : Int) (q : Rat) : |roundedAt e q| = roundedAt e |q| := by
  rcases le_total 0 q with h | h
  · rw [abs_of_nonneg h, abs_of_nonneg (roundedAt_nonneg e h)]
  · have hneg : roundedAt e q ≤ 0 := (roundedAt_mono e h).trans_eq (roundedAt_zero e)
    rw [abs_of_nonpos h, abs_of_nonpos hneg, roundedAt_neg]

/-- Rounding does not change the sign of what it leaves. -/
theorem roundedAt_neg_iff (h : roundedAt e q ≠ 0) : roundedAt e q < 0 ↔ q < 0 := by
  refine ⟨fun hneg => ?_, fun hneg => ?_⟩
  · exact not_le.mp fun hle => absurd hneg (not_lt.mpr (roundedAt_nonneg e hle))
  · exact lt_of_le_of_ne ((roundedAt_mono e hneg.le).trans_eq (roundedAt_zero e)) h

/-- A power of ten that is not below the unit is a multiple of it. -/
theorem roundedAt_ten_zpow (h : e ≤ f) : roundedAt e (10 ^ f) = 10 ^ f := by
  have hmul := roundedAt_of_le h 1
  rwa [Rat.intCast_one, one_mul] at hmul

theorem abs_roundedAt_le (h : e ≤ f) (hq : |q| ≤ 10 ^ f) : |roundedAt e q| ≤ 10 ^ f := by
  rw [abs_roundedAt]
  exact (roundedAt_mono e hq).trans_eq (roundedAt_ten_zpow h)

theorem le_abs_roundedAt (h : e ≤ f) (hq : 10 ^ f ≤ |q|) : 10 ^ f ≤ |roundedAt e q| := by
  rw [abs_roundedAt]
  exact (roundedAt_ten_zpow h).symm.trans_le (roundedAt_mono e hq)

/-! ## Two units -/

/-- A number that is not negative is rounded to the multiple of the unit that lies at
most half a unit above it, and less than that below. -/
theorem roundedAt_eq (hq : 0 ≤ q) {n : Nat} (hlow : (n - 1 / 2) * 10 ^ f ≤ q)
    (hhigh : q < (n + 1 / 2) * 10 ^ f) : roundedAt f q = n * 10 ^ f := by
  have hpos := ten_zpow_pos f
  rw [← le_div_iff₀ hpos] at hlow
  rw [← div_lt_iff₀ hpos] at hhigh
  have hfloor : (q / 10 ^ f + 1 / 2).floor = (n : Int) := by
    refine floor_eq ?_ ?_ <;> rw [Rat.intCast_natCast] <;> linarith
  rw [roundedAt, halfAway_of_nonneg (div_nonneg hq hpos.le), hfloor, Rat.intCast_natCast]

/-- There is such a multiple. -/
theorem exists_between_halves (f : Int) (hq : 0 ≤ q) :
    ∃ n : Nat, (n - 1 / 2) * 10 ^ f ≤ q ∧ q < (n + 1 / 2) * 10 ^ f := by
  have hpos := ten_zpow_pos f
  have hquotient : 0 ≤ q / 10 ^ f := div_nonneg hq hpos.le
  obtain ⟨hle, hlt⟩ := floor_bounds (q / 10 ^ f + 1 / 2)
  obtain ⟨n, hn⟩ : ∃ n : Nat, (q / 10 ^ f + 1 / 2).floor = n :=
    Int.eq_ofNat_of_zero_le (Rat.le_floor_iff.mpr (by push_cast; linarith))
  rw [hn, Rat.intCast_natCast] at hle hlt
  refine ⟨n, ?_, ?_⟩
  · rw [← le_div_iff₀ hpos]
    linarith
  · rw [← div_lt_iff₀ hpos]
    linarith

/-- A half of the unit `10^f` is a multiple of every finer unit. -/
theorem exists_half_eq (h : e < f) {n : Int} (hn : 0 < n) :
    ∃ m : Int, 0 < m ∧ n * (10 : Rat) ^ f - 10 ^ f / 2 = m * 10 ^ e := by
  refine ⟨(2 * n - 1) * (5 * (pow10 (f - 1 - e).toNat : Nat)), ?_, ?_⟩
  · have := pow10_pos (f - 1 - e).toNat
    have hodd : 0 < 2 * n - 1 := by omega
    positivity
  · have hten : (10 : Rat) ^ f = 10 * 10 ^ (f - 1) := by
      rw [ten_zpow_eq (show f - 1 ≤ f by omega), sub_sub_cancel]
      rfl
    rw [hten, ten_zpow_eq (show e ≤ f - 1 by omega)]
    push_cast
    ring

/-- A multiple of the coarser unit is reached from half of both units below it. -/
theorem le_roundedAt_roundedAt_iff (h : e < f) {n : Int} (hn : 0 < n) :
    n * 10 ^ f ≤ roundedAt f (roundedAt e q) ↔ n * 10 ^ f - 10 ^ f / 2 - 10 ^ e / 2 ≤ q := by
  obtain ⟨m, hm, hhalf⟩ := exists_half_eq h hn
  rw [le_roundedAt_iff hn, hhalf, le_roundedAt_iff hm]

/-- Between two halves the second rounding gives the multiple there, or the next one if
the first rounding has reached the half below that. -/
theorem roundedAt_roundedAt_between (h : e < f) (hq : 0 ≤ q) {n : Nat}
    (hlow : (n - 1 / 2) * 10 ^ f ≤ q) (hhigh : q < (n + 1 / 2) * 10 ^ f) :
    roundedAt f (roundedAt e q) =
      if (n + 1 / 2) * 10 ^ f - 10 ^ e / 2 ≤ q then ((n : Rat) + 1) * 10 ^ f else n * 10 ^ f := by
  have hpos := ten_zpow_pos f
  have hfine := ten_zpow_pos e
  have hunits : (10 : Rat) ^ e < 10 ^ f := zpow_lt_zpow_right₀ (by norm_num) h
  obtain ⟨m, hmlow, hmhigh⟩ := exists_between_halves f (roundedAt_nonneg e hq)
  rw [roundedAt_eq (roundedAt_nonneg e hq) hmlow hmhigh]
  have hreach : ∀ k : Nat, k < m ↔ (k + 1 / 2) * 10 ^ f - 10 ^ e / 2 ≤ q := by
    intro k
    have hiff := le_roundedAt_roundedAt_iff (q := q) h (n := k + 1) (by omega)
    rw [roundedAt_eq (roundedAt_nonneg e hq) hmlow hmhigh, mul_le_mul_iff_left₀ hpos] at hiff
    have hle : (((k + 1 : Int) : Rat) ≤ m) ↔ k < m := by
      rw [← Nat.succ_le_iff]
      exact_mod_cast Iff.rfl
    have hhalf : ((k : Rat) + 1) * 10 ^ f - 10 ^ f / 2 = (k + 1 / 2) * 10 ^ f := by ring
    rw [← hle, hiff]
    push_cast
    rw [hhalf]
  have hbelow : n ≤ m := by
    by_contra hlt
    obtain ⟨k, rfl⟩ : ∃ k, n = k + 1 := ⟨n - 1, by omega⟩
    have hk := mt (hreach k).mpr (by omega)
    push_cast at hlow
    linarith
  have habove : m ≤ n + 1 := by
    by_contra hlt
    have hk := (hreach (n + 1)).mp (by omega)
    push_cast at hk
    linarith
  split
  · next hle =>
      have := (hreach n).mpr hle
      rw [show m = n + 1 by omega, Nat.cast_succ]
  · next hle =>
      have := mt (hreach n).mp hle
      rw [show m = n by omega]

/-- `ReachesHalf e f q`: the magnitude lies below a half of the unit `10^f`, but not by
more than half of the unit `10^e`, so that rounding to that one takes it up to the half. -/
def ReachesHalf (e f : Int) (q : Rat) : Prop :=
  ∃ k : Nat, (k + 1 / 2) * 10 ^ f - 10 ^ e / 2 ≤ |q| ∧ |q| < (k + 1 / 2) * 10 ^ f

/-- Rounding keeps to the side of zero where the number is, so it is as far from the
number as the magnitudes are from each other. -/
theorem abs_roundedAt_roundedAt_sub (e f : Int) (q : Rat) :
    |roundedAt f (roundedAt e q) - q| = |roundedAt f (roundedAt e |q|) - (|q|)| := by
  rcases le_total 0 q with hq | hq
  · rw [abs_of_nonneg hq]
  · rw [abs_of_nonpos hq, roundedAt_neg, roundedAt_neg, neg_sub_neg, abs_sub_comm]

/-- Where a half is reached, the result is one unit farther from zero than that of a
single rounding, which makes it differ from the number by more than half a unit. -/
theorem roundedAt_roundedAt_of_reachesHalf (h : e < f) (hr : ReachesHalf e f q) :
    roundedAt f (roundedAt e q) = roundedAt f q + (if q < 0 then -10 ^ f else 10 ^ f) ∧
      10 ^ f / 2 < |roundedAt f (roundedAt e q) - q| ∧
      |roundedAt f (roundedAt e q) - q| ≤ 10 ^ f / 2 + 10 ^ e / 2 := by
  have hnonneg := abs_nonneg q
  obtain ⟨k, hle, hlt⟩ := hr
  have hpos := ten_zpow_pos f
  have hunits : (10 : Rat) ^ e < 10 ^ f := zpow_lt_zpow_right₀ (by norm_num) h
  have hlow : ((k : Rat) - 1 / 2) * 10 ^ f ≤ |q| := by linarith
  have honce := roundedAt_eq hnonneg hlow hlt
  have htwice := roundedAt_roundedAt_between h hnonneg hlow hlt
  rw [if_pos hle] at htwice
  have herror : |roundedAt f (roundedAt e q) - q| = ((k : Rat) + 1) * 10 ^ f - |q| := by
    rw [abs_roundedAt_roundedAt_sub, htwice, abs_of_nonneg (by linarith)]
  refine ⟨?_, by rw [herror]; linarith, by rw [herror]; linarith⟩
  split
  · next hq =>
      rw [abs_of_neg hq] at honce htwice
      simp only [roundedAt_neg] at honce htwice
      linarith
  · next hq =>
      rw [abs_of_nonneg (not_lt.mp hq)] at honce htwice
      linarith

/-- Anywhere else it is the result of a single rounding. -/
theorem roundedAt_roundedAt (h : e < f) (hr : ¬ReachesHalf e f q) :
    roundedAt f (roundedAt e q) = roundedAt f q := by
  have hnonneg : roundedAt f (roundedAt e |q|) = roundedAt f |q| := by
    obtain ⟨n, hlow, hhigh⟩ := exists_between_halves f (abs_nonneg q)
    have hbelow : ¬(n + 1 / 2) * 10 ^ f - 10 ^ e / 2 ≤ |q| := fun hle => hr ⟨n, hle, hhigh⟩
    rw [roundedAt_eq (abs_nonneg q) hlow hhigh,
      roundedAt_roundedAt_between h (abs_nonneg q) hlow hhigh, if_neg hbelow]
  rcases le_total 0 q with hq | hq
  · rwa [abs_of_nonneg hq] at hnonneg
  · rw [abs_of_nonpos hq] at hnonneg
    simp only [roundedAt_neg] at hnonneg
    exact neg_inj.mp hnonneg

/-! ## Few digits -/

/-- `HasDigits p q`: the number has at most `p` significant digits. -/
def HasDigits (p : Nat) (q : Rat) : Prop := ∃ m e : Int, |m| < 10 ^ p ∧ q = m * 10 ^ e

/-- A carry that makes one more digit leaves a one with zeros behind it. -/
theorem hasDigits_of_abs_le (hp : 0 < p) {m : Int} (h : |m| ≤ 10 ^ p) (e : Int) :
    HasDigits p (m * 10 ^ e) := by
  rcases lt_or_eq_of_le h with hlt | heq
  · exact ⟨m, e, hlt, rfl⟩
  · have hscale : (10 : Rat) ^ (e + p) = 10 ^ p * 10 ^ e := by
      rw [Rat.zpow_add (by decide), Rat.zpow_natCast, mul_comm]
    have hone : (1 : Int) < 10 ^ p := one_lt_pow₀ (by decide) (by omega)
    rcases abs_choice m with habs | habs
    · refine ⟨1, e + p, by rwa [abs_one], ?_⟩
      rw [hscale, ← habs, heq]
      push_cast
      ring
    · refine ⟨-1, e + p, by rwa [abs_neg, abs_one], ?_⟩
      rw [hscale, ← neg_neg m, ← habs, heq]
      push_cast
      ring

/-- What a number is rounded to is a multiple of the unit, and not a large one if the
number lies below a power of ten. -/
theorem hasDigits_roundedAt (hp : 0 < p) (h : |q| ≤ 10 ^ (e + p)) :
    HasDigits p (roundedAt e q) := by
  have hpos := ten_zpow_pos e
  have hle := abs_roundedAt_le (show e ≤ e + p by omega) h
  rw [roundedAt, abs_mul, abs_of_pos hpos, Rat.zpow_add (by decide), mul_comm (10 ^ e),
    mul_le_mul_iff_left₀ hpos, Rat.zpow_natCast] at hle
  exact hasDigits_of_abs_le hp (by exact_mod_cast hle) e

theorem hasDigits_rounded (hp : 0 < p) (q : Rat) : HasDigits p (rounded p q) := by
  refine hasDigits_roundedAt hp ?_
  rw [show leading q - p + 1 + p = leading q + 1 by omega]
  exact (lt_ten_zpow_leading q).le

namespace HasDigits

/-- The digits that are written make a number below a power of ten. -/
theorem exists_lt (h : HasDigits p q) : ∃ m e : Int, q = m * 10 ^ e ∧ |q| < 10 ^ (e + p) := by
  obtain ⟨m, e, hm, rfl⟩ := h
  have hpos := ten_zpow_pos e
  refine ⟨m, e, rfl, ?_⟩
  rw [abs_mul, abs_of_pos hpos, Rat.zpow_add (by decide), mul_comm (10 ^ e), Rat.zpow_natCast,
    mul_lt_mul_iff_left₀ hpos]
  exact_mod_cast hm

/-- Rounding to a unit leaves a number with few digits with few digits. -/
theorem roundedAt (hp : 0 < p) (h : HasDigits p q) (f : Int) :
    HasDigits p (roundedAt f q) := by
  obtain ⟨m, e, hq, hlt⟩ := h.exists_lt
  rcases le_or_gt f e with hle | hgt
  · rwa [hq, roundedAt_of_le hle, ← hq]
  · exact hasDigits_roundedAt hp (hlt.le.trans (ten_zpow_le (by omega)))

theorem rounded_eq (h : HasDigits p q) : rounded p q = q := by
  obtain ⟨m, e, hq, hlt⟩ := h.exists_lt
  rcases eq_or_ne q 0 with rfl | hne
  · exact rounded_zero p
  · have hlead := ten_zpow_lt ((ten_zpow_leading_le hne).trans_lt hlt)
    rw [hq] at hlead ⊢
    exact rounded_mul (by omega)

end HasDigits

/-! ## The leading digit -/

/-- A number that has digits at the unit or above does not lose its leading one. -/
theorem leading_le_leading_roundedAt (hq : q ≠ 0) (h : f ≤ leading q) :
    leading q ≤ leading (roundedAt f q) := by
  have hle := le_abs_roundedAt h (ten_zpow_leading_le hq)
  have := ten_zpow_lt (hle.trans_lt (lt_ten_zpow_leading _))
  omega

/-- What is left of a number at a unit is not below the unit. -/
theorem le_leading_roundedAt (h : roundedAt f q ≠ 0) : f ≤ leading (roundedAt f q) := by
  have hpos := ten_zpow_pos f
  have hone : (1 : Rat) ≤ |(halfAway (q / 10 ^ f) : Rat)| := by
    have hne : halfAway (q / 10 ^ f) ≠ 0 := by
      intro h0
      rw [roundedAt, h0, Rat.intCast_zero, zero_mul] at h
      exact h rfl
    exact_mod_cast Int.one_le_abs hne
  have hle : 10 ^ f ≤ |roundedAt f q| := by
    rw [roundedAt, abs_mul, abs_of_pos hpos]
    exact le_mul_of_one_le_left hpos.le hone
  have := ten_zpow_lt (hle.trans_lt (lt_ten_zpow_leading _))
  omega

/-! ## Decimals -/

/-- A number below a tenth of the unit is rounded to zero. -/
theorem halfUp_eq_zero {n k : Nat} (h : digitCount n < k) : halfUp n (pow10 k) = 0 := by
  have hlt := lt_pow10_digitCount n
  have hten := pow10_le_pow10 (Nat.succ_le_of_lt h)
  rw [Nat.succ_eq_add_one, pow10_add, show pow10 1 = 10 from rfl] at hten
  exact Nat.div_eq_of_lt (by omega)

/-- Rounding a decimal to a unit rounds the number that it denotes. -/
theorem Decimal.toRat_roundAt (e : Int) (x : Decimal) :
    (x.roundAt e).toRat = roundedAt e x.toRat := by
  unfold roundAt
  split
  · next hle => rw [toRat_eq_coeffAt x (Int.le_refl _), roundedAt_of_le hle]
  · next hgt =>
      obtain ⟨k, hk⟩ : ∃ k, (e - x.exp).toNat = k := ⟨_, rfl⟩
      obtain rfl : e = x.exp + k := by omega
      have hround : roundedAt (x.exp + k) x.toRat =
          (Decimal.mk x.negative (halfUp x.coeff (pow10 k)) (x.exp + k)).toRat := by
        have habs := roundedAt_toRat_abs x k
        rw [toRat_abs x, toRat_abs ⟨x.negative, _, _⟩]
        split
        · rw [roundedAt_neg, habs]
          rfl
        · exact habs
      dsimp only
      rw [hk, hround]
      split
      · next hshort =>
          rw [toRat_of_zero rfl, toRat_of_zero (halfUp_eq_zero hshort)]
      · rfl

end Reckoner
