/-
# Rounding of rational numbers

What rounding gives is said here of the number alone, not of how it is written:

    halfAway q       the nearest integer
    roundedAt e q    the nearest multiple of `10^e`
    rounded p q      the nearest number of `p` significant digits: the unit
                     stands `p - 1` places below the leading digit of `q`

In all three a half goes away from zero.  The rounding of a decimal is that of
the number that it denotes (`Decimal.toRat_round_eq`).  Rounding keeps the order
(`rounded_mono`), takes a number no farther than half a unit
(`abs_rounded_sub_le`), and sees no more of a number than its whole part at a
unit below the digits that are kept (`rounded_congr_floor`).  The number before
one of `p` digits stands `spacingBelow` below it: what lies in the upper half of
that gap is rounded up to it, and nothing lower is (`rounded_eq_iff`).
-/
import Mathlib.Data.Int.Log
import Mathlib.Data.Rat.Floor
import Mathlib.Tactic.FieldSimp
import Mathlib.Tactic.Linarith
import Mathlib.Tactic.Ring
import Reckoner.Proofs.Decimal.Scale

namespace Reckoner

/-! ## Whole parts -/

theorem floor_eq {q : Rat} {k : Int} (hle : (k : Rat) ≤ q) (hlt : q < k + 1) : q.floor = k := by
  have h1 := Rat.le_floor_iff.mpr hle
  have h2 : q.floor < k + 1 := Rat.floor_lt_iff.mpr (by rw [Rat.intCast_add]; exact hlt)
  omega

theorem ceil_eq {q : Rat} {k : Int} (hlt : (k : Rat) - 1 < q) (hle : q ≤ k) : q.ceil = k := by
  have h1 := Rat.ceil_le_iff.mpr hle
  have h2 : k - 1 < q.ceil := Rat.lt_ceil_iff.mpr (by rw [Rat.intCast_sub]; exact hlt)
  omega

theorem floor_bounds (q : Rat) : (q.floor : Rat) ≤ q ∧ q < q.floor + 1 := by
  refine ⟨Rat.le_floor_iff.mp (Int.le_refl _), ?_⟩
  have h : q < ((q.floor + 1 : Int) : Rat) := Rat.floor_lt_iff.mp (Int.lt_succ _)
  rwa [Rat.intCast_add] at h

/-! ## The nearest integer -/

/-- The nearest integer, a half going away from zero. -/
def halfAway (q : Rat) : Int := if 0 ≤ q then (q + 1 / 2).floor else (q - 1 / 2).ceil

variable {q r : Rat}

theorem halfAway_of_nonneg (h : 0 ≤ q) : halfAway q = (q + 1 / 2).floor := if_pos h

theorem halfAway_zero : halfAway 0 = 0 := by
  rw [halfAway_of_nonneg le_rfl]
  exact floor_eq (by norm_num) (by norm_num)

theorem halfAway_neg (q : Rat) : halfAway (-q) = -halfAway q := by
  rcases lt_trichotomy q 0 with h | rfl | h
  · have hneg : -q + 1 / 2 = -(q - 1 / 2) := by ring
    rw [halfAway_of_nonneg (by linarith), halfAway, if_neg (by linarith), hneg,
      Rat.ceil_eq_neg_floor_neg, Int.neg_neg]
  · rw [neg_zero, halfAway_zero, Int.neg_zero]
  · have hneg : -(-q - 1 / 2) = q + 1 / 2 := by ring
    rw [halfAway_of_nonneg h.le, halfAway, if_neg (by linarith), Rat.ceil_eq_neg_floor_neg, hneg]

theorem abs_halfAway_sub_le (q : Rat) : |(halfAway q : Rat) - q| ≤ 1 / 2 := by
  have hpos : ∀ t : Rat, 0 ≤ t → |(halfAway t : Rat) - t| ≤ 1 / 2 := by
    intro t ht
    obtain ⟨hle, hlt⟩ := floor_bounds (t + 1 / 2)
    rw [halfAway_of_nonneg ht, abs_le]
    constructor <;> linarith
  rcases le_total 0 q with h | h
  · exact hpos q h
  · have := hpos (-q) (by linarith)
    rw [halfAway_neg, Rat.intCast_neg] at this
    rw [← abs_neg]
    convert this using 2
    ring

theorem halfAway_mono (h : q ≤ r) : halfAway q ≤ halfAway r := by
  have hpos : ∀ s t : Rat, 0 ≤ s → s ≤ t → halfAway s ≤ halfAway t := by
    intro s t hs hst
    rw [halfAway_of_nonneg hs, halfAway_of_nonneg (hs.trans hst)]
    exact Rat.le_floor_iff.mpr ((floor_bounds _).1.trans (by linarith))
  have hzero := halfAway_zero
  rcases le_total 0 q with hq | hq
  · exact hpos q r hq h
  rcases le_total 0 r with hr | hr
  · have h1 := hpos 0 r le_rfl hr
    have h2 := hpos 0 (-q) le_rfl (by linarith)
    rw [halfAway_neg] at h2
    omega
  · have h1 := hpos (-r) (-q) (by linarith) (by linarith)
    rw [halfAway_neg, halfAway_neg] at h1
    omega

theorem halfAway_intCast (n : Int) : halfAway n = n := by
  have h := abs_halfAway_sub_le (n : Rat)
  rw [← Rat.intCast_sub, abs_le] at h
  obtain ⟨h1, h2⟩ := h
  have h1' : ((-1 : Int) : Rat) < ((halfAway n - n : Int) : Rat) := by push_cast at h1 ⊢; linarith
  have h2' : ((halfAway n - n : Int) : Rat) < ((1 : Int) : Rat) := by push_cast at h2 ⊢; linarith
  have := Rat.intCast_lt_intCast.mp h1'
  have := Rat.intCast_lt_intCast.mp h2'
  omega

/-- The nearest integer to a quotient of natural numbers. -/
theorem halfAway_div (n : Nat) {d : Nat} (hd : 0 < d) :
    halfAway ((n : Rat) / d) = (halfUp n d : Nat) := by
  have hd' : (0 : Rat) < d := Rat.natCast_pos.mpr hd
  have hle : halfUp n d * (2 * d) ≤ 2 * n + d := Nat.div_mul_le_self _ _
  have hlt : 2 * n + d < (halfUp n d + 1) * (2 * d) :=
    (Nat.div_lt_iff_lt_mul (by omega)).mp (Nat.lt_succ_self _)
  have hle' : (halfUp n d : Rat) * (2 * d) ≤ 2 * n + d := by exact_mod_cast hle
  have hlt' : 2 * (n : Rat) + d < (halfUp n d + 1) * (2 * d) := by exact_mod_cast hlt
  have hsum : (n : Rat) / d + 1 / 2 = (2 * n + d) / (2 * d) := by field_simp
  rw [halfAway_of_nonneg (div_nonneg Rat.natCast_nonneg hd'.le), hsum]
  refine floor_eq ?_ ?_
  · rw [Rat.intCast_natCast, le_div_iff₀ (by linarith)]
    exact hle'
  · rw [Rat.intCast_natCast, div_lt_iff₀ (by linarith)]
    exact hlt'

/-- Where the divisor is even, a half is a whole number, so that the digits behind
the point of the dividend decide nothing. -/
theorem halfAway_div_even (hq : 0 ≤ q) {h : Nat} (hh : 0 < h) :
    halfAway (q / (2 * h)) = halfAway (q.floor / (2 * h)) := by
  have hh' : (0 : Rat) < h := Rat.natCast_pos.mpr hh
  obtain ⟨hfloor, hfloor'⟩ := floor_bounds q
  have hnonneg : (0 : Rat) ≤ q.floor := Rat.intCast_nonneg.mpr (Rat.le_floor_iff.mpr hq)
  have hsum : ∀ t : Rat, t / (2 * h) + 1 / 2 = (t + h) / (2 * h) := fun t => by field_simp
  rw [halfAway_of_nonneg (div_nonneg hq (by linarith)),
    halfAway_of_nonneg (div_nonneg hnonneg (by linarith)), hsum, hsum]
  obtain ⟨hle, hlt⟩ := floor_bounds ((q.floor + h) / (2 * h))
  generalize (((q.floor : Rat) + h) / (2 * h)).floor = m at hle hlt
  rw [le_div_iff₀ (by linarith)] at hle
  rw [div_lt_iff₀ (by linarith)] at hlt
  have hwhole : q.floor + h + 1 ≤ (m + 1) * (2 * h) := by
    have : q.floor + (h : Int) < (m + 1) * (2 * h) := by exact_mod_cast hlt
    omega
  have hwhole' : (q.floor : Rat) + h + 1 ≤ (m + 1) * (2 * h) := by exact_mod_cast hwhole
  refine floor_eq ?_ ?_
  · rw [le_div_iff₀ (by linarith)]
    linarith
  · rw [div_lt_iff₀ (by linarith)]
    linarith

/-! ## The nearest multiple of a power of ten -/

/-- The nearest multiple of `10^e`, a half going away from zero. -/
def roundedAt (e : Int) (q : Rat) : Rat := halfAway (q / 10 ^ e) * 10 ^ e

theorem roundedAt_neg (e : Int) (q : Rat) : roundedAt e (-q) = -roundedAt e q := by
  rw [roundedAt, roundedAt, neg_div, halfAway_neg, Rat.intCast_neg, neg_mul]

theorem roundedAt_mono (e : Int) (h : q ≤ r) : roundedAt e q ≤ roundedAt e r := by
  have hpos := ten_zpow_pos e
  refine mul_le_mul_of_nonneg_right (Rat.intCast_le_intCast.mpr (halfAway_mono ?_)) hpos.le
  exact div_le_div_of_nonneg_right h hpos.le

/-- A multiple of the unit stays as it is. -/
theorem roundedAt_mul (e n : Int) : roundedAt e (n * 10 ^ e) = n * 10 ^ e := by
  rw [roundedAt, mul_div_cancel_right₀ _ (ten_zpow_pos e).ne', halfAway_intCast]

/-- A multiple of a power of ten is one of every power below. -/
theorem exists_mul_ten_zpow {e f : Int} (h : e ≤ f) (n : Int) :
    ∃ m : Int, (n : Rat) * 10 ^ f = m * 10 ^ e := by
  refine ⟨n * (pow10 (f - e).toNat : Nat), ?_⟩
  rw [ten_zpow_eq h]
  push_cast
  ring

theorem roundedAt_of_le {e f : Int} (h : e ≤ f) (n : Int) :
    roundedAt e (n * 10 ^ f) = n * 10 ^ f := by
  obtain ⟨m, hm⟩ := exists_mul_ten_zpow h n
  rw [hm, roundedAt_mul]

theorem abs_roundedAt_sub_le (e : Int) (q : Rat) : |roundedAt e q - q| ≤ 10 ^ e / 2 := by
  have hpos := ten_zpow_pos e
  have hsplit : roundedAt e q - q = (halfAway (q / 10 ^ e) - q / 10 ^ e) * 10 ^ e := by
    rw [roundedAt, sub_mul, div_mul_cancel₀ _ hpos.ne']
  rw [hsplit, abs_mul, abs_of_pos hpos]
  have := mul_le_mul_of_nonneg_right (abs_halfAway_sub_le (q / 10 ^ e)) hpos.le
  linarith

/-! ## The leading digit -/

/-- The power of ten of the leading digit: `e` where `10^e ≤ |q| < 10^(e+1)`. -/
def leading (q : Rat) : Int := Int.log 10 |q|

theorem leading_zero : leading 0 = 0 := by rw [leading, abs_zero, Int.log_zero_right]

theorem leading_neg (q : Rat) : leading (-q) = leading q := by rw [leading, abs_neg, leading]

theorem ten_zpow_leading_le (h : q ≠ 0) : 10 ^ leading q ≤ |q| := by
  have := Int.zpow_log_le_self (b := 10) (by decide) (abs_pos.mpr h)
  rwa [Nat.cast_ofNat] at this

theorem lt_ten_zpow_leading (q : Rat) : |q| < 10 ^ (leading q + 1) := by
  have := Int.lt_zpow_succ_log_self (b := 10) (by decide) |q|
  rwa [Nat.cast_ofNat] at this

theorem ten_zpow_lt {e f : Int} (h : (10 : Rat) ^ e < 10 ^ f) : e < f := by
  by_contra hle
  exact absurd h (not_lt.mpr (ten_zpow_le (by omega)))

theorem leading_eq {e : Int} (hle : 10 ^ e ≤ |q|) (hlt : |q| < 10 ^ (e + 1)) : leading q = e := by
  have hq : q ≠ 0 := abs_pos.mp ((ten_zpow_pos e).trans_le hle)
  have h1 := ten_zpow_lt (hle.trans_lt (lt_ten_zpow_leading q))
  have h2 := ten_zpow_lt ((ten_zpow_leading_le hq).trans_lt hlt)
  omega

theorem leading_le_of_abs_le (hq : q ≠ 0) (h : |q| ≤ |r|) : leading q ≤ leading r := by
  have := ten_zpow_lt ((ten_zpow_leading_le hq).trans_lt (h.trans_lt (lt_ten_zpow_leading r)))
  omega

theorem leading_mono (hq : 0 < q) (h : q ≤ r) : leading q ≤ leading r :=
  leading_le_of_abs_le hq.ne' (abs_le_abs_of_nonneg hq.le h)

/-! ## Significant digits -/

/-- The nearest number of `p` significant digits, a half going away from zero. -/
def rounded (p : Nat) (q : Rat) : Rat := roundedAt (leading q - p + 1) q

variable {p : Nat}

theorem rounded_zero (p : Nat) : rounded p 0 = 0 := by
  rw [rounded, roundedAt, zero_div, halfAway_zero, Rat.intCast_zero, zero_mul]

theorem rounded_neg (p : Nat) (q : Rat) : rounded p (-q) = -rounded p q := by
  rw [rounded, leading_neg, roundedAt_neg, rounded]

theorem abs_rounded_sub_le (p : Nat) (q : Rat) :
    |rounded p q - q| ≤ 10 ^ (leading q - p + 1) / 2 :=
  abs_roundedAt_sub_le _ q

/-- Of a number below a power of ten, rounding takes no more than half a unit of the
last digit there. -/
theorem abs_rounded_sub_le_of_lt (p : Nat) {e : Int} (h : |q| < 10 ^ (e + 1)) :
    |rounded p q - q| ≤ 10 ^ (e - p + 1) / 2 := by
  rcases eq_or_ne q 0 with rfl | hq
  · rw [rounded_zero, sub_zero, abs_zero]
    exact div_nonneg (ten_zpow_pos _).le zero_le_two
  · have hlead := ten_zpow_lt ((ten_zpow_leading_le hq).trans_lt h)
    have hunit : (10 : Rat) ^ (leading q - p + 1) ≤ 10 ^ (e - p + 1) := ten_zpow_le (by omega)
    linarith [abs_rounded_sub_le p q]

theorem rounded_nonneg (p : Nat) (h : 0 ≤ q) : 0 ≤ rounded p q := by
  have := roundedAt_mono (leading q - p + 1) h
  rwa [roundedAt, zero_div, halfAway_zero, Rat.intCast_zero, zero_mul] at this

/-- A multiple of a unit that is not below the digits kept stays as it is. -/
theorem rounded_mul {e n : Int} (h : leading (n * 10 ^ e) - p + 1 ≤ e) :
    rounded p (n * 10 ^ e) = n * 10 ^ e :=
  roundedAt_of_le h n

/-- Rounding does not take a number below the power of ten of its leading digit,
and not above the next one. -/
theorem rounded_bounds (hp : 0 < p) (hq : 0 < q) :
    10 ^ leading q ≤ rounded p q ∧ rounded p q ≤ 10 ^ (leading q + 1) := by
  have hone : ∀ e : Int, (10 : Rat) ^ e = (1 : Int) * 10 ^ e := fun e => by
    rw [Rat.intCast_one, one_mul]
  have hlow := ten_zpow_leading_le hq.ne'
  have hhigh := (lt_ten_zpow_leading q).le
  rw [abs_of_pos hq] at hlow hhigh
  constructor
  · have := roundedAt_mono (leading q - p + 1) hlow
    rwa [hone (leading q), roundedAt_of_le (by omega), ← hone] at this
  · have := roundedAt_mono (leading q - p + 1) hhigh
    rwa [hone (leading q + 1), roundedAt_of_le (by omega), ← hone] at this

/-- Rounding keeps the leading digit where it is, or takes it one place up. -/
theorem leading_rounded (hp : 0 < p) (q : Rat) :
    leading q ≤ leading (rounded p q) ∧ leading (rounded p q) ≤ leading q + 1 := by
  have hpos : ∀ t : Rat, 0 < t →
      leading t ≤ leading (rounded p t) ∧ leading (rounded p t) ≤ leading t + 1 := by
    intro t ht
    obtain ⟨hlow, hhigh⟩ := rounded_bounds hp ht
    have hr : 0 < rounded p t := (ten_zpow_pos _).trans_le hlow
    have habove := lt_ten_zpow_leading (rounded p t)
    have hbelow := ten_zpow_leading_le hr.ne'
    rw [abs_of_pos hr] at habove hbelow
    have hle := ten_zpow_lt (hlow.trans_lt habove)
    have hge := (zpow_le_zpow_iff_right₀ (by norm_num)).mp (hbelow.trans hhigh)
    omega
  rcases lt_trichotomy q 0 with h | rfl | h
  · have := hpos (-q) (neg_pos.mpr h)
    rwa [rounded_neg, leading_neg, leading_neg] at this
  · rw [rounded_zero, leading_zero]
    decide
  · exact hpos q h

theorem rounded_mono (hp : 0 < p) (h : q ≤ r) : rounded p q ≤ rounded p r := by
  have hpos : ∀ s t : Rat, 0 < s → s ≤ t → rounded p s ≤ rounded p t := by
    intro s t hs hst
    have hlead := leading_mono hs hst
    rcases eq_or_lt_of_le hlead with heq | hlt
    · rw [rounded, rounded, heq]
      exact roundedAt_mono _ hst
    · calc rounded p s ≤ 10 ^ (leading s + 1) := (rounded_bounds hp hs).2
        _ ≤ 10 ^ leading t := ten_zpow_le (by omega)
        _ ≤ rounded p t := (rounded_bounds hp (hs.trans_le hst)).1
  rcases lt_or_ge 0 q with hq | hq
  · exact hpos q r hq h
  rcases lt_or_ge r 0 with hr | hr
  · have := hpos (-r) (-q) (by linarith) (by linarith)
    rw [rounded_neg, rounded_neg] at this
    linarith
  · have h1 := rounded_nonneg p hr
    have h2 := rounded_nonneg p (show 0 ≤ -q by linarith)
    rw [rounded_neg] at h2
    linarith

/-! ### Digits that rounding does not see -/

/-- Whether a number reaches a multiple of the unit can be seen from its whole part. -/
theorem le_iff_of_floor_eq {e : Int} (h : (q / 10 ^ e).floor = (r / 10 ^ e).floor) (n : Int) :
    (n : Rat) * 10 ^ e ≤ q ↔ (n : Rat) * 10 ^ e ≤ r := by
  have hpos := ten_zpow_pos e
  rw [← le_div_iff₀ hpos, ← le_div_iff₀ hpos, ← Rat.le_floor_iff, ← Rat.le_floor_iff, h]

/-- At a unit below the digits that are kept, the whole part of a number is all
that rounding depends on. -/
theorem rounded_congr_floor {e : Int} (hq : 0 < q) (hr : 0 < r)
    (h : (q / 10 ^ e).floor = (r / 10 ^ e).floor) (hdigits : e + p ≤ leading q) :
    rounded p q = rounded p r := by
  have hpower : ∀ f : Int, e ≤ f → ((10 : Rat) ^ f ≤ q ↔ 10 ^ f ≤ r) := by
    intro f hf
    rw [ten_zpow_eq hf, ← Rat.intCast_natCast]
    exact le_iff_of_floor_eq h _
  have hlow := ten_zpow_leading_le hq.ne'
  have hhigh := lt_ten_zpow_leading q
  rw [abs_of_pos hq] at hlow hhigh
  have hleading : leading r = leading q := by
    refine leading_eq ?_ ?_ <;> rw [abs_of_pos hr]
    · exact (hpower _ (by omega)).mp hlow
    · exact not_le.mp fun hle => absurd hhigh (not_lt.mpr ((hpower _ (by omega)).mpr hle))
  -- the unit of the result is at least ten of the units below it, an even number of them
  obtain ⟨k, hk⟩ : ∃ k : Nat, leading q - p + 1 = e + (k + 1 : Nat) :=
    ⟨(leading q - p - e).toNat, by omega⟩
  have hunit : (10 : Rat) ^ (leading q - p + 1) = 10 ^ e * (2 * (5 * pow10 k : Nat)) := by
    rw [hk, Rat.zpow_add (by decide), Rat.zpow_natCast, pow10_eq, pow_succ]
    push_cast
    ring
  have heven : 0 < 5 * pow10 k := Nat.mul_pos (by decide) (pow10_pos k)
  rw [rounded, rounded, hleading, roundedAt, roundedAt, hunit, ← div_div q, ← div_div r,
    halfAway_div_even (div_nonneg hq.le (ten_zpow_pos e).le) heven,
    halfAway_div_even (div_nonneg hr.le (ten_zpow_pos e).le) heven, h]

/-! ### The number below -/

/-- The distance from a number of `p` digits to the next one towards zero: a unit
of its last digit, and a tenth of that below a power of ten. -/
def spacingBelow (p : Nat) (q : Rat) : Rat :=
  if |q| = 10 ^ leading q then 10 ^ (leading q - p) else 10 ^ (leading q - p + 1)

theorem spacingBelow_neg (p : Nat) (q : Rat) : spacingBelow p (-q) = spacingBelow p q := by
  rw [spacingBelow, abs_neg, leading_neg, spacingBelow]

theorem spacingBelow_le (hp : 0 < p) (hq : q ≠ 0) : spacingBelow p q ≤ |q| := by
  refine le_trans ?_ (ten_zpow_leading_le hq)
  unfold spacingBelow
  split <;> exact ten_zpow_le (by omega)

theorem le_halfAway_iff {n : Int} (hn : 0 < n) : n ≤ halfAway q ↔ (n : Rat) - 1 / 2 ≤ q := by
  rcases le_total 0 q with hq | hq
  · rw [halfAway_of_nonneg hq, Rat.le_floor_iff, sub_le_iff_le_add]
  · have hone : (1 : Rat) ≤ n := by exact_mod_cast hn
    have hle := halfAway_mono hq
    rw [halfAway_zero] at hle
    exact iff_of_false (by omega) (by linarith)

theorem le_roundedAt_iff {e n : Int} (hn : 0 < n) :
    n * 10 ^ e ≤ roundedAt e q ↔ n * 10 ^ e - 10 ^ e / 2 ≤ q := by
  have hpos := ten_zpow_pos e
  have hhalf : (n : Rat) * 10 ^ e - 10 ^ e / 2 = (n - 1 / 2) * 10 ^ e := by ring
  rw [roundedAt, mul_le_mul_iff_left₀ hpos, Rat.intCast_le_intCast, le_halfAway_iff hn, hhalf,
    le_div_iff₀ hpos]

/-- Between a power of ten and a multiple of the unit there, those numbers reach
the multiple that are at most half a unit below it. -/
theorem le_rounded_iff (hp : 0 < p) {f n : Int} {t : Rat} (hmul : q = n * 10 ^ f)
    (hlow : 10 ^ (f + p - 1) + 10 ^ f ≤ q) (hhigh : q ≤ 10 ^ (f + p)) (ht : 0 < t) (hlt : t < q) :
    q ≤ rounded p t ↔ q - 10 ^ f / 2 ≤ t := by
  have hunit := ten_zpow_pos f
  rcases le_or_gt (10 ^ (f + p - 1)) t with hle | hgt
  · have hn : 0 < n := by
      have : (0 : Rat) < n := pos_of_mul_pos_left (hmul ▸ ht.trans hlt) hunit.le
      exact_mod_cast this
    have hlead : leading t = f + p - 1 := by
      refine leading_eq ?_ ?_ <;> rw [abs_of_pos ht]
      · exact hle
      · rw [sub_add_cancel]
        exact hlt.trans_le hhigh
    rw [rounded, hlead, show f + p - 1 - p + 1 = f by omega, hmul, le_roundedAt_iff hn]
  · -- below the power of ten, rounding goes no farther than to it
    have hlead : leading t + 1 ≤ f + p - 1 := by
      have hlow := ten_zpow_leading_le ht.ne'
      rw [abs_of_pos ht] at hlow
      have := ten_zpow_lt (hlow.trans_lt hgt)
      omega
    have hround : rounded p t ≤ 10 ^ (f + p - 1) :=
      (rounded_bounds hp ht).2.trans (ten_zpow_le hlead)
    exact iff_of_false (by linarith) (by linarith)

/-- Rounding takes up to a number of `p` digits what lies at most half way from it
to the next one towards zero. -/
theorem rounded_eq_iff (hp : 0 < p) {t : Rat} (hq : rounded p q = q) (ht : 0 < t) (hlt : t < q) :
    rounded p t = q ↔ q - spacingBelow p q / 2 ≤ t := by
  have hqpos := ht.trans hlt
  have hle : rounded p t ≤ q := (rounded_mono hp hlt.le).trans_eq hq
  have hfloor := ten_zpow_leading_le hqpos.ne'
  have hceil := lt_ten_zpow_leading q
  rw [abs_of_pos hqpos] at hfloor hceil
  rw [le_antisymm_iff, and_iff_right hle, spacingBelow, abs_of_pos hqpos]
  split
  · next hten =>
      -- below a power of ten the unit is a tenth of the one above it
      have hmul : q = ((pow10 p : Nat) : Int) * 10 ^ (leading q - p) := by
        rw [Rat.intCast_natCast]
        nth_rewrite 1 [hten]
        rw [ten_zpow_eq (show leading q - p ≤ leading q by omega), sub_sub_cancel,
          Int.toNat_natCast]
      have htenth : q = 10 * 10 ^ (leading q - 1) := by
        nth_rewrite 1 [hten]
        rw [ten_zpow_eq (show leading q - 1 ≤ leading q by omega), sub_sub_cancel]
        rfl
      have hunit : (10 : Rat) ^ (leading q - p) ≤ 10 ^ (leading q - 1) := ten_zpow_le (by omega)
      refine le_rounded_iff hp hmul ?_ ?_ ht hlt
      · rw [sub_add_cancel]
        linarith
      · rw [sub_add_cancel]
        exact hten.le
  · next hten =>
      have hmul : q = halfAway (q / 10 ^ (leading q - p + 1)) * 10 ^ (leading q - p + 1) := hq.symm
      have hpower : (10 : Rat) ^ leading q = (pow10 (p - 1) : Nat) * 10 ^ (leading q - p + 1) := by
        rw [ten_zpow_eq (show leading q - p + 1 ≤ leading q by omega)]
        congr 3
        omega
      refine le_rounded_iff hp hmul ?_ ?_ ht hlt
      · rw [show leading q - p + 1 + p - 1 = leading q by omega]
        have hpos := ten_zpow_pos (leading q - p + 1)
        have habove : (10 : Rat) ^ leading q < q := lt_of_le_of_ne hfloor (Ne.symm hten)
        rw [hpower] at habove ⊢
        generalize halfAway (q / 10 ^ (leading q - p + 1)) = n at hmul
        generalize (10 : Rat) ^ (leading q - p + 1) = u at hmul hpos habove ⊢
        rw [hmul, mul_lt_mul_iff_left₀ hpos] at habove
        have hnext : ((pow10 (p - 1) : Nat) : Rat) + 1 ≤ n := by
          exact_mod_cast habove
        have := mul_le_mul_of_nonneg_right hnext hpos.le
        linarith
      · rw [show leading q - p + 1 + p = leading q + 1 by omega]
        exact hceil.le

/-! ## Decimals -/

namespace Decimal

variable {x : Decimal}

theorem abs_toRat (x : Decimal) : |x.toRat| = x.abs.toRat := by
  have := toRat_abs_nonneg x
  rw [toRat_abs x]
  split
  · rw [abs_neg, abs_of_nonneg this]
  · rw [abs_of_nonneg this]

theorem leading_toRat (hx : x.coeff ≠ 0) : leading x.toRat = x.magnitude := by
  refine leading_eq ?_ ?_ <;> rw [abs_toRat]
  · exact le_toRat_abs hx
  · exact toRat_abs_lt x

/-- The nearest multiple of a unit that is not below the last digit of a
magnitude. -/
theorem roundedAt_toRat_abs (x : Decimal) (k : Nat) :
    roundedAt (x.exp + k) x.abs.toRat = (halfUp x.coeff (pow10 k) : Nat) * 10 ^ (x.exp + k) := by
  have hquotient : x.abs.toRat / 10 ^ (x.exp + k) = (x.coeff : Rat) / (pow10 k : Nat) := by
    have hpos := ten_zpow_pos x.exp
    rw [show x.abs.toRat = x.coeff * 10 ^ x.exp from rfl, Rat.zpow_add (by decide),
      Rat.zpow_natCast, pow10_eq, Nat.cast_pow, Nat.cast_ofNat]
    field_simp
  rw [roundedAt, hquotient, halfAway_div _ (pow10_pos k), Rat.intCast_natCast]

/-- Rounding a decimal rounds the number that it denotes. -/
theorem toRat_round_eq (p : Nat) (x : Decimal) : (x.round p).toRat = rounded p x.toRat := by
  by_cases hx : x.coeff = 0
  · have hround : (x.round p).coeff = 0 := coeff_round_of_zero hx p
    rw [toRat_of_zero hround, toRat_of_zero hx, rounded_zero]
  have hlead := leading_toRat hx
  unfold round
  dsimp only
  split
  · next hshort =>
      -- the last digit written does not stand below the last one kept
      rw [toRat_eq_coeffAt x (Int.le_refl _)] at hlead ⊢
      refine (rounded_mul ?_).symm
      rw [hlead, magnitude]
      omega
  · next hlong =>
      obtain ⟨k, hk⟩ : ∃ k, x.digits - p = k := ⟨_, rfl⟩
      have hunit : x.magnitude - p + 1 = x.exp + k := by
        rw [magnitude]
        omega
      have habs : rounded p x.abs.toRat = (halfUp x.coeff (pow10 k) : Nat) * 10 ^ (x.exp + k) := by
        rw [rounded, leading_toRat (x := x.abs) hx, show x.abs.magnitude = x.magnitude from rfl,
          hunit, roundedAt_toRat_abs]
      rw [hk, toRat_abs x, toRat_abs]
      split
      · rw [rounded_neg, habs]
        rfl
      · rw [habs]
        rfl

end Decimal

end Reckoner
