/-
# The series of Machin's formula

The loop works with rounded numbers.  Next to the exact series of `arctan (1 / n)`
it keeps, before the term `k + 1`, in units of `10^-w`,

    the power    (1/n)^(2k+1)        to a unit
    the sum      of k + 1 terms      to one and a half units for each of them

(`Near`): dividing a power makes its error smaller, and every rounding adds half a
unit.  A term of the exact series is then off by a unit at most, so it can be less
than the unit only where the exact one is less than two, and it is less after `w`
terms at the latest.  So the loop ends (`arctanInverse_near`), with a sum that
misses little.
-/
import Mathlib.Algebra.BigOperators.Group.Finset.Basic
import Mathlib.Tactic.NormNum
import Mathlib.Tactic.Positivity
import Reckoner.Elementary.Machin
import Reckoner.Proofs.Decimal.Arithmetic

namespace Reckoner

namespace Elementary

/-! ## The exact series -/

/-- The term `k` of the series of `arctan (1 / n)`, without its sign. -/
def arctanTerm (n k : Nat) : Rat := (1 / n) ^ (2 * k + 1) / (2 * k + 1 : Nat)

/-- The sum of the first `k` terms. -/
def arctanSum (n k : Nat) : Rat := ∑ i ∈ Finset.range k, (-1) ^ i * arctanTerm n i

theorem arctanSum_succ (n k : Nat) :
    arctanSum n (k + 1) = arctanSum n k + (-1) ^ k * arctanTerm n k :=
  Finset.sum_range_succ _ k

variable {w n k : Nat}

theorem inverse_pow_le (hn : 5 ≤ n) (k : Nat) : (1 / n : Rat) ^ k ≤ (1 / 5) ^ k := by
  have hn' : (5 : Rat) ≤ n := by exact_mod_cast hn
  have hnonneg : (0 : Rat) ≤ 1 / n := by positivity
  exact pow_le_pow_left₀ hnonneg (one_div_le_one_div_of_le (by norm_num) hn') k

theorem arctanTerm_nonneg (n k : Nat) : 0 ≤ arctanTerm n k := by
  unfold arctanTerm
  positivity

theorem arctanTerm_le (hn : 5 ≤ n) (k : Nat) : arctanTerm n k ≤ (1 / 5) ^ (k + 1) := by
  have hone : (1 : Rat) ≤ (2 * k + 1 : Nat) := by exact_mod_cast Nat.le_add_left 1 (2 * k)
  calc arctanTerm n k
      ≤ (1 / n) ^ (2 * k + 1) := div_le_self (by positivity) hone
    _ ≤ (1 / 5) ^ (2 * k + 1) := inverse_pow_le hn _
    _ ≤ (1 / 5) ^ (k + 1) := pow_le_pow_of_le_one (by norm_num) (by norm_num) (by omega)

/-- What is left of a quarter bounds the terms that are still to come. -/
theorem abs_arctanSum_le (hn : 5 ≤ n) (k : Nat) : |arctanSum n k| ≤ (1 - (1 / 5) ^ k) / 4 := by
  induction k with
  | zero => simp [arctanSum]
  | succ k ih =>
      have hterm := arctanTerm_le hn k
      have habs : |(-1) ^ k * arctanTerm n k| = arctanTerm n k := by
        rw [abs_mul, abs_neg_one_pow, one_mul, abs_of_nonneg (arctanTerm_nonneg n k)]
      rw [arctanSum_succ, pow_succ]
      rw [pow_succ] at hterm
      have := abs_add_le (arctanSum n k) ((-1) ^ k * arctanTerm n k)
      rw [habs] at this
      linarith

/-! ## The unit -/

/-- At `w` digits, `w` units are not a tenth. -/
theorem mul_unit_le (hw : 0 < w) : (w : Rat) * 10 ^ (-w : Int) ≤ 1 / 10 := by
  obtain ⟨v, rfl⟩ := Nat.exists_eq_add_one.mpr hw
  have hlt : v + 1 ≤ 10 ^ v := Nat.lt_pow_self (by decide)
  have hle : ((v + 1 : Nat) : Rat) ≤ 10 ^ v := by exact_mod_cast hlt
  rw [Rat.zpow_neg, Rat.zpow_natCast, ← div_eq_mul_inv, div_le_iff₀ (by positivity), pow_succ]
  linarith

theorem unit_le (hw : 0 < w) : (10 : Rat) ^ (-w : Int) ≤ 1 / 10 := by
  have hone : (1 : Rat) ≤ w := by exact_mod_cast hw
  have := mul_le_mul_of_nonneg_right hone (ten_zpow_pos (-w : Int)).le
  linarith [mul_unit_le hw]

/-! ## One step -/

theorem abs_rounded_sub_le_unit {q : Rat} (h : |q| < 1) :
    |rounded w q - q| ≤ 10 ^ (-w : Int) / 2 := by
  have := abs_rounded_sub_le_of_lt w (e := -1) (by rwa [neg_add_cancel, zpow_zero])
  rwa [show (-1 : Int) - w + 1 = -w by omega] at this

/-- Dividing brings a number nearer to the exact one, and rounding the quotient takes
it half a unit away. -/
theorem abs_divRounded_sub_le {x : Decimal} {q δ : Rat} {d : Nat} (hd : 0 < d)
    (hx : |x.toRat| < 1) (h : |x.toRat - q| ≤ δ) :
    |(x.divRounded w (.ofNat d)).toRat - q / d| ≤ 10 ^ (-w : Int) / 2 + δ / d := by
  have hd' : (1 : Rat) ≤ d := by exact_mod_cast hd
  have hpos : (0 : Rat) < d := by linarith
  have hsmall : |x.toRat / d| < 1 := by
    rw [abs_div, abs_of_pos hpos]
    exact (div_le_self (abs_nonneg _) hd').trans_lt hx
  have herror : |x.toRat / d - q / d| ≤ δ / d := by
    rw [← sub_div, abs_div, abs_of_pos hpos]
    exact div_le_div_of_nonneg_right h hpos.le
  rw [Decimal.toRat_divRounded w x (Nat.ne_of_gt hd), Decimal.toRat_ofNat]
  have hround := abs_rounded_sub_le_unit (w := w) hsmall
  calc |rounded w (x.toRat / d) - q / d|
      ≤ |rounded w (x.toRat / d) - x.toRat / d| + |x.toRat / d - q / d| := abs_sub_le _ _ _
    _ ≤ 10 ^ (-w : Int) / 2 + δ / d := add_le_add hround herror

/-- The power and the sum before the term `k + 1`, next to those of the series. -/
structure Near (w n k : Nat) (power sum : Decimal) : Prop where
  power : |power.toRat - (1 / n) ^ (2 * k + 1)| ≤ 10 ^ (-w : Int)
  sum : |sum.toRat - arctanSum n (k + 1)| ≤ 3 / 2 * (k + 1) * 10 ^ (-w : Int)

/-- What is near to a power is less than one. -/
theorem abs_lt_one_of_near {x : Decimal} (hw : 0 < w) (hn : 5 ≤ n)
    (h : |x.toRat - (1 / n) ^ (2 * k + 1)| ≤ 10 ^ (-w : Int)) : |x.toRat| < 1 := by
  have hpow : (1 / n : Rat) ^ (2 * k + 1) ≤ 1 / 5 :=
    (inverse_pow_le hn _).trans (pow_le_of_le_one (by norm_num) (by norm_num) (by omega))
  have hnonneg : (0 : Rat) ≤ (1 / n) ^ (2 * k + 1) := by positivity
  have hunit := unit_le hw
  rw [abs_le] at h
  rw [abs_lt]
  constructor <;> linarith

theorem near_power (hw : 0 < w) (hn : 5 ≤ n) {power : Decimal}
    (h : |power.toRat - (1 / n) ^ (2 * k + 1)| ≤ 10 ^ (-w : Int)) :
    |(power.divRounded w (.ofNat (n * n))).toRat - (1 / n) ^ (2 * (k + 1) + 1)| ≤
      10 ^ (-w : Int) := by
  have hsquare : 25 ≤ n * n := Nat.mul_le_mul hn hn
  have hsquare' : (25 : Rat) ≤ (n * n : Nat) := by exact_mod_cast hsquare
  have hnext : (1 / n : Rat) ^ (2 * k + 1) / (n * n : Nat) = (1 / n) ^ (2 * (k + 1) + 1) := by
    rw [show 2 * (k + 1) + 1 = 2 * k + 1 + 2 by omega, pow_add]
    push_cast
    ring
  have hdiv := abs_divRounded_sub_le (w := w) (d := n * n) (by omega)
    (abs_lt_one_of_near hw hn h) h
  have hsmall := div_le_div_of_nonneg_left (ten_zpow_pos (-w : Int)).le (by norm_num) hsquare'
  rw [hnext] at hdiv
  linarith [ten_zpow_pos (-w : Int)]

theorem near_term (hw : 0 < w) (hn : 5 ≤ n) (hk : 0 < k) {power : Decimal}
    (h : |power.toRat - (1 / n) ^ (2 * k + 1)| ≤ 10 ^ (-w : Int)) :
    |(power.divRounded w (.ofNat (2 * k + 1))).toRat - arctanTerm n k| ≤ 10 ^ (-w : Int) := by
  have hodd : (3 : Rat) ≤ (2 * k + 1 : Nat) := by exact_mod_cast (by omega : 3 ≤ 2 * k + 1)
  have hdiv := abs_divRounded_sub_le (w := w) (Nat.succ_pos (2 * k))
    (abs_lt_one_of_near hw hn h) h
  have hsmall := div_le_div_of_nonneg_left (ten_zpow_pos (-w : Int)).le (by norm_num) hodd
  refine hdiv.trans ?_
  linarith [ten_zpow_pos (-w : Int)]

/-- After `w` terms there is none left that reaches the unit. -/
theorem term_lt_unit (hw : 0 < w) (hn : 5 ≤ n) (hk : w ≤ k) {power : Decimal}
    (h : |power.toRat - (1 / n) ^ (2 * k + 1)| ≤ 10 ^ (-w : Int)) :
    (power.divRounded w (.ofNat (2 * k + 1))).toRat < 10 ^ (-w : Int) := by
  have hunit := ten_zpow_pos (-w : Int)
  have hodd : (3 : Rat) ≤ (2 * k + 1 : Nat) := by exact_mod_cast (by omega : 3 ≤ 2 * k + 1)
  have hpow : (1 / n : Rat) ^ (2 * k + 1) ≤ 10 ^ (-w : Int) / 5 :=
    calc (1 / n : Rat) ^ (2 * k + 1)
        ≤ (1 / 5) ^ (2 * w + 1) :=
          (inverse_pow_le hn _).trans
            (pow_le_pow_of_le_one (by norm_num) (by norm_num) (by omega))
      _ = (1 / 25) ^ w / 5 := by
          rw [pow_succ, pow_mul]
          norm_num
          ring
      _ ≤ (1 / 10) ^ w / 5 :=
          div_le_div_of_nonneg_right
            (pow_le_pow_left₀ (by norm_num) (by norm_num) w) (by norm_num)
      _ = 10 ^ (-w : Int) / 5 := by rw [one_div_pow, Rat.zpow_neg, Rat.zpow_natCast, one_div]
  have hround := abs_divRounded_sub_le (w := w) (δ := 0) (Nat.succ_pos (2 * k))
    (abs_lt_one_of_near hw hn h) (by rw [sub_self, abs_zero])
  have hquotient : power.toRat / (2 * k + 1 : Nat) ≤ 6 / 5 * 10 ^ (-w : Int) / 3 :=
    (div_le_div_of_nonneg_right (by linarith [(abs_le.mp h).2]) (by linarith)).trans
      (div_le_div_of_nonneg_left (by positivity) (by norm_num) hodd)
  rw [zero_div, add_zero, abs_le] at hround
  linarith [hround.2]

/-- The sum with a term more. -/
theorem near_sum (hn : 5 ≤ n) (hk : k < w) {sum term : Decimal}
    (hsum : |sum.toRat - arctanSum n k| ≤ 3 / 2 * k * 10 ^ (-w : Int))
    (hterm : |term.toRat - arctanTerm n k| ≤ 10 ^ (-w : Int)) :
    |(if k % 2 = 1 then sum.subRounded w term else sum.addRounded w term).toRat -
      arctanSum n (k + 1)| ≤ 3 / 2 * (k + 1) * 10 ^ (-w : Int) := by
  have hw : 0 < w := by omega
  have hvalue : (if k % 2 = 1 then sum.subRounded w term else sum.addRounded w term).toRat =
      rounded w (sum.toRat + (-1) ^ k * term.toRat) := by
    split
    · next hodd =>
        rw [Decimal.toRat_subRounded, (Nat.odd_iff.mpr hodd).neg_one_pow, neg_one_mul,
          sub_eq_add_neg]
    · next heven =>
        rw [Decimal.toRat_addRounded, (Nat.even_iff.mpr (by omega)).neg_one_pow, one_mul]
  have herror : |sum.toRat + (-1) ^ k * term.toRat - arctanSum n (k + 1)| ≤
      (3 / 2 * k + 1) * 10 ^ (-w : Int) := by
    have hsplit : sum.toRat + (-1) ^ k * term.toRat - arctanSum n (k + 1) =
        (sum.toRat - arctanSum n k) + (-1) ^ k * (term.toRat - arctanTerm n k) := by
      rw [arctanSum_succ]
      ring
    have := abs_add_le (sum.toRat - arctanSum n k) ((-1) ^ k * (term.toRat - arctanTerm n k))
    rw [abs_mul, abs_neg_one_pow, one_mul] at this
    rw [hsplit]
    linarith
  have hsmall : |sum.toRat + (-1) ^ k * term.toRat| < 1 := by
    have hexact := abs_arctanSum_le hn (k + 1)
    have hpow : (0 : Rat) < (1 / 5) ^ (k + 1) := by positivity
    have hk' : ((k : Rat) + 1) * 10 ^ (-w : Int) ≤ w * 10 ^ (-w : Int) :=
      mul_le_mul_of_nonneg_right (by exact_mod_cast hk) (ten_zpow_pos _).le
    have := abs_sub_abs_le_abs_sub (sum.toRat + (-1) ^ k * term.toRat) (arctanSum n (k + 1))
    linarith [mul_unit_le hw, ten_zpow_pos (-w : Int)]
  rw [hvalue]
  have hround := abs_rounded_sub_le_unit (w := w) hsmall
  have := abs_sub_le (rounded w (sum.toRat + (-1) ^ k * term.toRat))
    (sum.toRat + (-1) ^ k * term.toRat) (arctanSum n (k + 1))
  linarith

/-! ## The loop -/

/-- Whether a term is less than the unit, as it is asked in the loop. -/
theorem lt_unit_iff {x : Decimal} : x.lt ⟨false, 1, -w⟩ = true ↔ x.toRat < 10 ^ (-w : Int) := by
  rw [Decimal.lt_iff, Decimal.toRat_power, if_neg Bool.false_ne_true]

/-- A loop that has ended stays as it is, however many rounds more there are. -/
theorem arctanFrom_mono {rounds rounds' : Nat} (hle : rounds ≤ rounds') {k : Nat}
    {power sum x : Decimal} (h : arctanFrom w n rounds k power sum = some x) :
    arctanFrom w n rounds' k power sum = some x := by
  induction rounds generalizing rounds' k power sum with
  | zero => cases h
  | succ rounds ih =>
      obtain ⟨rounds', rfl⟩ := Nat.exists_eq_add_one.mpr (show 0 < rounds' by omega)
      rw [arctanFrom] at h ⊢
      split
      · next hlast => rwa [if_pos hlast] at h
      · next hmore =>
          rw [if_neg hmore] at h
          exact ih (by omega) h

/-- The loop ends after `w` terms at most, and next to a term that is as good as
none. -/
theorem arctanFrom_near (hn : 5 ≤ n) {rounds k : Nat} {power sum : Decimal} (hk : k < w)
    (hrounds : w ≤ k + rounds) (h : Near w n k power sum) :
    ∃ x j, arctanFrom w n rounds (k + 1) power sum = some x ∧ j ≤ w ∧
      |x.toRat - arctanSum n j| ≤ 3 / 2 * j * 10 ^ (-w : Int) ∧
      arctanTerm n j ≤ 2 * 10 ^ (-w : Int) := by
  induction rounds generalizing k power sum with
  | zero => omega
  | succ rounds ih =>
      have hw : 0 < w := by omega
      obtain ⟨hpower, hsum⟩ := h
      have hnext := near_power hw hn hpower
      have hterm := near_term hw hn (Nat.succ_pos k) hnext
      rw [arctanFrom]
      split
      · next hlast =>
          refine ⟨sum, k + 1, rfl, hk, by exact_mod_cast hsum, ?_⟩
          rw [lt_unit_iff] at hlast
          linarith [(abs_le.mp hterm).1]
      · next hmore =>
          have hk' : k + 1 < w := by
            by_contra hge
            exact hmore (lt_unit_iff.mpr (term_lt_unit hw hn (by omega) hnext))
          refine ih hk' (by omega) ⟨hnext, ?_⟩
          exact_mod_cast near_sum hn hk' (by exact_mod_cast hsum) hterm

/-- The sum that stands for `arctan (1 / n)` is one of the partial sums of the
series, but for an error of one and a half units for each of its terms. -/
theorem arctanInverse_near (hw : 0 < w) (hn : 5 ≤ n) :
    ∃ x j, arctanInverse w w n = some x ∧ j ≤ w ∧
      |x.toRat - arctanSum n j| ≤ 3 / 2 * j * 10 ^ (-w : Int) ∧
      arctanTerm n j ≤ 2 * 10 ^ (-w : Int) := by
  have hn' : (5 : Rat) ≤ n := by exact_mod_cast hn
  have hfirst : (Decimal.one.divRounded w (.ofNat n)).toRat = rounded w (1 / n) := by
    rw [Decimal.toRat_divRounded w _ (show n ≠ 0 by omega), Decimal.toRat_ofNat,
      show Decimal.one.toRat = 1 from Decimal.toRat_ofNat 1]
  have hsmall : |(1 / n : Rat)| < 1 := by
    rw [abs_of_nonneg (by positivity), div_lt_one (by linarith)]
    linarith
  have hround := abs_rounded_sub_le_unit (w := w) hsmall
  have hunit := ten_zpow_pos (-w : Int)
  have hexact : arctanSum n 1 = 1 / n := by
    rw [arctanSum_succ, arctanSum, Finset.sum_range_zero, arctanTerm]
    norm_num
  refine arctanFrom_near hn hw (by omega) ⟨?_, ?_⟩
  · rw [hfirst, Nat.mul_zero, Nat.zero_add, pow_one]
    linarith
  · rw [hfirst, Nat.zero_add, hexact]
    push_cast
    linarith

/-! ## The formula -/

/-- What is near to a partial sum is far below one. -/
theorem abs_le_of_near_sum (hw : 0 < w) (hn : 5 ≤ n) {x : Rat} {j : Nat} (hj : j ≤ w)
    (h : |x - arctanSum n j| ≤ 3 / 2 * j * 10 ^ (-w : Int)) : |x| ≤ 2 / 5 := by
  have hsum := abs_arctanSum_le hn j
  have hpow : (0 : Rat) < (1 / 5) ^ j := by positivity
  have hj' : (j : Rat) * 10 ^ (-w : Int) ≤ w * 10 ^ (-w : Int) :=
    mul_le_mul_of_nonneg_right (by exact_mod_cast hj) (ten_zpow_pos _).le
  linarith [abs_sub_abs_le_abs_sub x (arctanSum n j), mul_unit_le hw]

theorem abs_rounded_sub_le_units {q : Rat} (h : |q| < 10) :
    |rounded w q - q| ≤ 5 * 10 ^ (-w : Int) := by
  have := abs_rounded_sub_le_of_lt w (e := 0) (by rwa [zero_add, zpow_one])
  rw [show (0 : Int) - w + 1 = 1 + -w by omega, Rat.zpow_add (by decide), zpow_one] at this
  linarith

/-- The loops end, and π is the combination of two partial sums, but for some
thirty units for each of the digits. -/
theorem machin_near (hw : 0 < w) : ∃ x i j, machin w w = some x ∧ i ≤ w ∧ j ≤ w ∧
    |x.toRat - (16 * arctanSum 5 i - 4 * arctanSum 239 j)| ≤ (30 * w + 15) * 10 ^ (-w : Int) ∧
    arctanTerm 5 i ≤ 2 * 10 ^ (-w : Int) ∧ arctanTerm 239 j ≤ 2 * 10 ^ (-w : Int) := by
  obtain ⟨a, i, ha, hi, hai, hti⟩ := arctanInverse_near hw (le_refl 5)
  obtain ⟨b, j, hb, hj, hbj, htj⟩ := arctanInverse_near hw (show 5 ≤ 239 by decide)
  have hunit := ten_zpow_pos (-w : Int)
  have hsmallUnit := unit_le hw
  have hasmall := abs_le_of_near_sum hw (le_refl 5) hi hai
  have hbsmall := abs_le_of_near_sum hw (show 5 ≤ 239 by decide) hj hbj
  refine ⟨_, i, j, by rw [machin, ha, hb]; rfl, hi, hj, ?_, hti, htj⟩
  rw [Decimal.toRat_subRounded, Decimal.toRat_mulRounded, Decimal.toRat_mulRounded,
    Decimal.toRat_ofNat, Decimal.toRat_ofNat]
  generalize a.toRat = s at *
  generalize b.toRat = t at *
  have hiu : (i : Rat) * 10 ^ (-w : Int) ≤ w * 10 ^ (-w : Int) :=
    mul_le_mul_of_nonneg_right (by exact_mod_cast hi) hunit.le
  have hju : (j : Rat) * 10 ^ (-w : Int) ≤ w * 10 ^ (-w : Int) :=
    mul_le_mul_of_nonneg_right (by exact_mod_cast hj) hunit.le
  rw [abs_le] at hasmall hbsmall hai hbj
  have hfirst : |rounded w (s * 16) - s * 16| ≤ 5 * 10 ^ (-w : Int) :=
    abs_rounded_sub_le_units (abs_lt.mpr ⟨by linarith, by linarith⟩)
  have hsecond : |rounded w (t * 4) - t * 4| ≤ 5 * 10 ^ (-w : Int) :=
    abs_rounded_sub_le_units (abs_lt.mpr ⟨by linarith, by linarith⟩)
  generalize rounded w (s * 16) = s' at *
  generalize rounded w (t * 4) = t' at *
  rw [abs_le] at hfirst hsecond
  have hlast : |rounded w (s' - t') - (s' - t')| ≤ 5 * 10 ^ (-w : Int) :=
    abs_rounded_sub_le_units (abs_lt.mpr ⟨by linarith, by linarith⟩)
  rw [abs_le] at hlast ⊢
  constructor <;> linarith

theorem abs_machin_lt (hw : 0 < w) : ∃ x, machin w w = some x ∧ |x.toRat| < 10 := by
  obtain ⟨x, i, j, hx, -, -, hnear, -, -⟩ := machin_near hw
  refine ⟨x, hx, ?_⟩
  have hi := abs_arctanSum_le (le_refl 5) i
  have hj := abs_arctanSum_le (show 5 ≤ 239 by decide) j
  have hipow : (0 : Rat) < (1 / 5) ^ i := by positivity
  have hjpow : (0 : Rat) < (1 / 5) ^ j := by positivity
  have hunits := mul_unit_le hw
  have hunit := unit_le hw
  rw [abs_le] at hnear hi hj
  rw [abs_lt]
  constructor <;> linarith

theorem machinDigits_pos (p : Nat) : 0 < machinDigits p := by
  unfold machinDigits
  split <;> omega

theorem toRat_pi (p : Nat) {x : Decimal} (h : machin (machinDigits p) (machinDigits p) = some x) :
    (pi p).toRat = rounded p x.toRat := by
  rw [pi, h, Option.getD_some, Decimal.toRat_round_eq]

/-- π has no more than two digits before the point. -/
theorem magnitude_pi_le (p : Nat) (h : (pi p).coeff ≠ 0) : (pi p).magnitude ≤ 1 := by
  obtain ⟨x, hx, hsmall⟩ := abs_machin_lt (machinDigits_pos p)
  have hround := abs_rounded_sub_le_of_lt p (e := 0) (by rwa [zero_add, zpow_one])
  have hunit : (10 : Rat) ^ (0 - p + 1 : Int) ≤ 10 ^ (1 : Int) := ten_zpow_le (by omega)
  rw [zpow_one] at hunit
  have hlarge : |(pi p).toRat| < 10 ^ (2 : Int) := by
    rw [toRat_pi p hx]
    have := abs_sub_abs_le_abs_sub (rounded p x.toRat) x.toRat
    norm_num
    linarith
  rw [← Decimal.leading_toRat h]
  have := ten_zpow_lt ((ten_zpow_leading_le (mt Decimal.toRat_eq_zero_iff.mp h)).trans_lt hlarge)
  omega

end Elementary

end Reckoner
