/-
# π to every precision

The partial sums of `Reckoner.Proofs.Elementary.Machin` next to the real
arctangents.  The terms of the series alternate and fall, so a partial sum misses
the arctangent by no more than the next term, and that is less than two units
where the loop ends.  At `w` digits all errors together make some thirty units for
each digit,

    |machin w w - π| ≤ (30 w + 55) · 10^-w

and with ten digits more than are asked for that is less than half of a unit of
the last digit asked for, up to the greatest precision that leaves room for them.
-/
import Mathlib.Analysis.SpecialFunctions.Complex.Arctan
import Mathlib.Analysis.SpecificLimits.Normed
import Reckoner.Proofs.Elementary.Machin
import Reckoner.Proofs.Operation.Reading
import Reckoner.Session.Systems

namespace Reckoner

namespace Elementary

/-! ## The arctangent -/

theorem antitone_arctanTerm {n : Nat} (hn : 1 < n) : Antitone (arctanTerm n) := by
  refine antitone_nat_of_succ_le fun k => ?_
  have hle : (1 / n : Rat) ≤ 1 := by
    rw [div_le_one (by exact_mod_cast (by omega : 0 < n))]
    exact_mod_cast hn.le
  refine div_le_div₀ (by positivity)
    (pow_le_pow_of_le_one (by positivity) hle (by omega)) (by positivity) ?_
  exact_mod_cast (by omega : 2 * k + 1 ≤ 2 * (k + 1) + 1)

theorem hasSum_arctan_inverse {n : Nat} (hn : 1 < n) :
    HasSum (fun k => (-1) ^ k * (arctanTerm n k : ℝ)) (Real.arctan (1 / n)) := by
  have hlt : ‖(1 / n : ℝ)‖ < 1 := by
    rw [Real.norm_of_nonneg (by positivity), div_lt_one (by positivity)]
    exact_mod_cast hn
  convert Real.hasSum_arctan hlt using 2 with k
  rw [arctanTerm]
  push_cast
  ring

/-- A partial sum misses the arctangent by no more than the next term. -/
theorem abs_arctan_sub_arctanSum_le {n : Nat} (hn : 1 < n) (k : Nat) :
    |Real.arctan (1 / n) - arctanSum n k| ≤ arctanTerm n k := by
  have hsum := hasSum_arctan_inverse hn
  have hsummable : Summable fun k => (arctanTerm n k : ℝ) := by
    refine hsum.summable.abs.congr fun i => ?_
    rw [abs_mul, abs_neg_one_pow, one_mul,
      abs_of_nonneg (Rat.cast_nonneg.mpr (arctanTerm_nonneg n i))]
  have hfalls : Antitone fun k => (arctanTerm n k : ℝ) :=
    fun i j h => Rat.cast_le.mpr (antitone_arctanTerm hn h)
  have hbound := alternating_series_error_bound _ hfalls hsummable k
  rw [hsum.tsum_eq] at hbound
  rw [arctanSum]
  exact_mod_cast hbound

/-! ## The formula -/

theorem pi_eq_machin : Real.pi = 16 * Real.arctan (1 / 5) - 4 * Real.arctan (1 / 239) := by
  have h := Real.four_mul_arctan_inv_5_sub_arctan_inv_239
  rw [one_div, one_div]
  linarith

/-- A unit of the last of `w` digits behind the point, as a real number. -/
theorem cast_unit (w : Nat) : (((10 : Rat) ^ (-w : Int) : Rat) : ℝ) = 10 ^ (-w : Int) := by
  rw [Rat.zpow_neg, Rat.zpow_natCast, zpow_neg, zpow_natCast]
  push_cast
  rfl

theorem abs_machin_sub_pi_le {w : Nat} (hw : 0 < w) : ∃ x, machin w w = some x ∧
    |(x.toRat : ℝ) - Real.pi| ≤ (30 * w + 55) * 10 ^ (-w : Int) := by
  obtain ⟨x, i, j, hx, -, -, hnear, hi, hj⟩ := machin_near hw
  refine ⟨x, hx, ?_⟩
  have hfifth := abs_arctan_sub_arctanSum_le (n := 5) (by decide) i
  have hother := abs_arctan_sub_arctanSum_le (n := 239) (by decide) j
  rw [← cast_unit]
  generalize (10 : Rat) ^ (-w : Int) = u at *
  have hnear' : |(x.toRat : ℝ) - (16 * arctanSum 5 i - 4 * arctanSum 239 j)| ≤
      (30 * w + 15) * u := by exact_mod_cast hnear
  have hi' : (arctanTerm 5 i : ℝ) ≤ 2 * u := by exact_mod_cast hi
  have hj' : (arctanTerm 239 j : ℝ) ≤ 2 * u := by exact_mod_cast hj
  rw [pi_eq_machin]
  push_cast at hfifth hother
  rw [abs_le] at hfifth hother hnear' ⊢
  constructor <;> linarith

/-- Ten digits in reserve outweigh the errors of all the terms. -/
theorem abs_machin_sub_pi_le_of_reserve {p : Nat} (h : p + 10 ≤ 1000000000) :
    ∃ x, machin (p + 10) (p + 10) = some x ∧ |(x.toRat : ℝ) - Real.pi| ≤ 4 * 10 ^ (-p : Int) := by
  obtain ⟨x, hx, hnear⟩ := abs_machin_sub_pi_le (Nat.succ_pos (p + 9))
  refine ⟨x, hx, hnear.trans ?_⟩
  have hunit : (10 : ℝ) ^ (-(p + 9 + 1 : Nat) : Int) = 10 ^ (-p : Int) / 10000000000 := by
    rw [show (-(p + 9 + 1 : Nat) : Int) = -p - (10 : Nat) by omega, zpow_sub₀ (by norm_num),
      zpow_natCast]
    norm_num
  have hcount : ((p + 9 + 1 : Nat) : ℝ) ≤ 1000000000 := by exact_mod_cast h
  have hpos : (0 : ℝ) < 10 ^ (-p : Int) := by positivity
  rw [hunit]
  generalize ((p + 9 + 1 : Nat) : ℝ) = w at hcount
  generalize (10 : ℝ) ^ (-p : Int) = u at hpos
  have := mul_le_mul_of_nonneg_right hcount hpos.le
  linarith

theorem abs_pi_sub_pi_lt {p : Nat} (h : p + 10 ≤ 1000000000) :
    |((pi p).toRat : ℝ) - Real.pi| < 10 ^ (1 - p : Int) := by
  obtain ⟨x, hx, hnear⟩ := abs_machin_sub_pi_le_of_reserve h
  obtain ⟨x', hx', hsmall⟩ := abs_machin_lt (Nat.succ_pos (p + 9))
  cases hx.symm.trans hx'
  have hround := abs_rounded_sub_le_units (w := p) hsmall
  have hvalue := toRat_pi p (x := x) (by rwa [machinDigits, if_pos h])
  have hround' : |((pi p).toRat : ℝ) - x.toRat| ≤ 5 * 10 ^ (-p : Int) := by
    rw [hvalue, ← cast_unit]
    exact_mod_cast hround
  have hunit : (10 : ℝ) ^ (1 - p : Int) = 10 * 10 ^ (-p : Int) := by
    rw [sub_eq_add_neg, zpow_add₀ (by norm_num), zpow_one]
  have hpos : (0 : ℝ) < 10 ^ (-p : Int) := by positivity
  rw [hunit]
  have := abs_sub_le ((pi p).toRat : ℝ) x.toRat Real.pi
  linarith

/-- So near to π there is a number with one digit before the point. -/
theorem inRange_pi {p : Nat} (hp : 0 < p) (h : p + 10 ≤ 1000000000) : (pi p).InRange := by
  intro hne
  have hnear := abs_pi_sub_pi_lt h
  have hunit : (10 : ℝ) ^ (1 - p : Int) ≤ 10 ^ (0 : Int) :=
    zpow_le_zpow_right₀ (by norm_num) (by omega)
  have hone : (1 : Rat) ≤ (pi p).toRat := by
    rw [zpow_zero] at hunit
    have hlow : (1 : ℝ) ≤ (pi p).toRat := by linarith [(abs_lt.mp hnear).1, Real.two_le_pi]
    exact_mod_cast hlow
  have hlow : 0 < (pi p).magnitude + 1 := by
    have hbelow := lt_ten_zpow_leading (pi p).toRat
    rw [Decimal.leading_toRat hne, abs_of_pos (by linarith)] at hbelow
    exact ten_zpow_lt (by rw [zpow_zero]; exact hone.trans_lt hbelow)
  have hhigh := magnitude_pi_le p hne
  rw [Number.exponentLimit]
  omega

end Elementary

/-! ## Number systems -/

/-- At every precision that leaves room for the reserve the loops end, and π has as
many digits as are asked for, all of them right but for less than a unit of the
last. -/
theorem NumberSystem.pi_accurate (system : NumberSystem)
    (h : system.precision.digits + 10 ≤ 1000000000) :
    let p := system.precision.digits
    let π := 16 * Real.arctan (1 / 5) - 4 * Real.arctan (1 / 239)
    (∃ a, ∀ rounds, p + 10 ≤ rounds → Elementary.arctanInverse rounds (p + 10) 5 = some a) ∧
    (∃ b, ∀ rounds, p + 10 ≤ rounds → Elementary.arctanInverse rounds (p + 10) 239 = some b) ∧
    ∃ v : Decimal, system.pi = .finite v ∧ v.significant ≤ p ∧
      |(v.toRat : ℝ) - π| < 10 ^ (1 - p : Int) ∧ π = Real.pi := by
  dsimp only
  rw [← Elementary.pi_eq_machin]
  have hp := system.precision.positive
  have hw := Nat.add_pos_left hp 10
  obtain ⟨a, -, ha, -⟩ := Elementary.arctanInverse_near hw (le_refl 5)
  obtain ⟨b, -, hb, -⟩ := Elementary.arctanInverse_near hw (show 5 ≤ 239 by decide)
  refine ⟨⟨a, fun _ hle => Elementary.arctanFrom_mono hle ha⟩,
    ⟨b, fun _ hle => Elementary.arctanFrom_mono hle hb⟩, _,
    Number.fit_of_inRange (Elementary.inRange_pi hp h), ?_, ?_, rfl⟩
  · rw [Decimal.significant_canonical]
    exact Decimal.significant_round hp _
  · rw [Decimal.toRat_canonical]
    exact Elementary.abs_pi_sub_pi_lt h

theorem NumberSystem.pi_accurate_standard :
    Precision.standard.digits + 10 ≤ 1000000000 ∧
    ∃ v : Decimal, (NumberSystem.mk .standard 0).pi = .finite v ∧ v.significant ≤ 64 ∧
      |(v.toRat : ℝ) - Real.pi| < 10 ^ (1 - 64 : Int) := by
  have hroom : Precision.standard.digits + 10 ≤ 1000000000 := by decide
  obtain ⟨-, -, v, hv, hdigits, hnear, hπ⟩ := NumberSystem.pi_accurate ⟨.standard, 0⟩ hroom
  rw [hπ] at hnear
  exact ⟨hroom, v, hv, hdigits, hnear⟩

end Reckoner
