/-
# Digits of elementary functions

Every elementary function gives a decimal of at most `p` significant digits:
either the value is rounded, or it is zero, or it is one.  The exception that
proves nothing is a function that gives back its argument, which it does for
zero only.
-/
import Reckoner.Elementary.Circular
import Reckoner.Elementary.InverseCircular
import Reckoner.Number.Power
import Reckoner.Proofs.Decimal.Rounding

namespace Reckoner

variable {p : Nat}

/-- A number that, if it is finite, has at most `p` significant digits. -/
inductive Number.Short (p : Nat) : Number → Prop
  | finite {x : Decimal} : x.significant ≤ p → Short p (.finite x)
  | infinite {negative : Bool} : Short p (.infinite negative)
  | nan : Short p .nan

namespace Number

theorem short_fit (hp : 0 < p) {x : Decimal} (h : x.significant ≤ p) : (fit x).Short p := by
  have hcanonical : x.canonical.significant ≤ p := x.significant_canonical ▸ h
  unfold fit
  split
  · exact .finite hcanonical
  · split
    · exact .infinite
    · split
      · exact .finite (Decimal.significant_zero hp _ _)
      · exact .finite hcanonical

theorem short_one (hp : 0 < p) : one.Short p := .finite (Decimal.significant_one hp _ _)

theorem short_ite {c : Prop} [Decidable c] {x y : Number} (hx : x.Short p) (hy : y.Short p) :
    (if c then x else y).Short p := by
  split
  · exact hx
  · exact hy

theorem short_specialPower (hp : 0 < p) (x y : Binary64) : (specialPower x y).Short p := by
  have hzero : ∀ negative, (Number.finite ⟨negative, 0, 0⟩).Short p :=
    fun _ => .finite (Decimal.significant_zero hp _ _)
  unfold specialPower
  dsimp only
  split
  · exact short_one hp
  · exact .nan
  · exact .nan
  · exact short_ite .nan (short_ite .infinite (hzero false))
  · exact short_ite (hzero _) .infinite
  · exact short_ite .infinite (hzero _)

end Number

namespace Elementary

open Approximable

/-- What is given only under a condition. -/
theorem eq_some_of_guard {α : Type} {c : Prop} [Decidable c] {o : Option α} {a : α}
    (h : (if c then none else o) = some a) : o = some a := by
  split at h
  · cases h
  · exact h

theorem significant_tangent (hp : 0 < p) (x : Decimal) : (tangent p x).significant ≤ p := by
  unfold tangent
  dsimp only
  split
  · exact Decimal.significant_zero hp _ _
  · exact Decimal.significant_round hp _

theorem significant_circular? {margin : Nat} {atZero : Decimal → Decimal}
    (hzero : ∀ x, x.coeff = 0 → (atZero x).significant ≤ p) {value : Nat → Decimal → Decimal}
    (hvalue : ∀ x, (value p x).significant ≤ p) {x y : Decimal}
    (h : circular? margin atZero value p x = some y) : y.significant ≤ p := by
  unfold circular? at h
  split at h
  · next hx =>
      cases h
      exact hzero x hx
  · split at h
    · cases h
    · cases h
      exact hvalue x

theorem significant_piFraction? (hp : 0 < p) {margin d : Nat} {negative : Bool} {y : Decimal}
    (h : piFraction? p margin d negative = some y) : y.significant ≤ p := by
  unfold piFraction? at h
  split at h
  · cases h
  · cases h
    exact Decimal.significant_setSign hp (significant_nearest hp _) _

theorem significant_arcsin? (hp : 0 < p) {x y : Decimal} (h : arcsin? p x = some y) :
    y.significant ≤ p := by
  unfold arcsin? at h
  split at h
  · next hx =>
      cases h
      exact Decimal.significant_of_isZero hp hx
  · split at h
    · exact significant_piFraction? hp h
    · cases h
      exact significant_nearest hp _

theorem significant_arccos? (hp : 0 < p) {x y : Decimal} (h : arccos? p x = some y) :
    y.significant ≤ p := by
  unfold arccos? at h
  split at h
  · exact significant_piFraction? hp h
  · split at h
    · split at h
      · exact significant_piFraction? hp h
      · cases h
        exact Decimal.significant_zero hp _ _
    · cases h
      exact significant_nearest hp _

theorem significant_arctan (hp : 0 < p) (x : Decimal) : (arctan p x).significant ≤ p := by
  unfold arctan
  split
  · next hx => exact Decimal.significant_of_isZero hp hx
  · exact significant_nearest hp _

theorem short_sinh (hp : 0 < p) (x : Decimal) : (sinh p x).Short p := by
  unfold sinh
  split
  · next hx => exact Number.short_fit hp (Decimal.significant_of_isZero hp hx)
  · split
    · exact .infinite
    · split
      · exact Number.short_fit hp (significant_nearest hp _)
      · exact Number.short_fit hp (significant_nearest hp _)

theorem short_cosh (hp : 0 < p) (x : Decimal) : (cosh p x).Short p := by
  unfold cosh
  split
  · exact .finite (Decimal.significant_one hp _ _)
  · split
    · exact .infinite
    · split
      · exact Number.short_fit hp (significant_nearest hp _)
      · exact Number.short_fit hp (significant_nearest hp _)

theorem short_tanh (hp : 0 < p) (x : Decimal) : (tanh p x).Short p := by
  unfold tanh
  split
  · next hx => exact Number.short_fit hp (Decimal.significant_of_isZero hp hx)
  · split
    · exact Number.short_fit hp (significant_nearest hp _)
    · exact Number.short_fit hp (significant_nearest hp _)

theorem significant_ln? (hp : 0 < p) {x y : Decimal} (h : ln? p x = some y) :
    y.significant ≤ p := by
  unfold ln? at h
  split at h
  · cases h
    exact Decimal.significant_zero hp _ _
  · split at h
    · cases h
    · cases h
      exact significant_nearest hp _

theorem significant_log10? (hp : 0 < p) {x y : Decimal} (h : log10? p x = some y) :
    y.significant ≤ p := by
  unfold log10? at h
  dsimp only at h
  by_cases hone : isOne x = true
  · rw [if_pos hone] at h
    cases h
    exact Decimal.significant_zero hp _ _
  · rw [if_neg hone] at h
    replace h := eq_some_of_guard (eq_some_of_guard h)
    split at h
    · cases h
      exact Decimal.significant_round hp _
    · cases h
      exact significant_nearest hp _

/-- The denominator of a rational power is not zero, since no root is. -/
theorem den_pos_of_integerPower? {base : Nat × Int} (hbase : base.1 ≠ 0) {m : Nat}
    {inverse : Bool} {r : Ratio} (h : integerPower? p base m inverse = some r) : 0 < r.den := by
  obtain ⟨c, e⟩ := base
  have hpow : 0 < (if c = 1 then 1 else Nat.pow c m) := by
    split
    · exact Nat.one_pos
    · exact Nat.pow_pos (Nat.pos_of_ne_zero hbase)
  unfold integerPower? at h
  dsimp only at h
  split at h
  · cases h
  · split at h
    · cases h
      exact hpow
    · cases h
      exact Nat.one_pos

theorem root_ne_zero {n : Nat} {x : Decimal} (hx : x.coeff ≠ 0) (hn : n ≠ 0) {base : Nat × Int}
    (h : decimalRoot? n x = some base) : base.1 ≠ 0 := by
  have hcoeff : x.canonical.coeff ≠ 0 := by
    obtain ⟨k, hk, -⟩ := Decimal.canonical_spec hx
    intro h0
    rw [h0, Nat.zero_mul] at hk
    exact hx hk
  unfold decimalRoot? at h
  dsimp only at h
  split at h
  · cases h
  · split at h
    · cases h
      exact Nat.one_ne_zero
    · split at h
      · cases h
      · obtain ⟨r, hr, rfl⟩ := Option.map_eq_some_iff.mp h
        unfold root? at hr
        dsimp only at hr
        split at hr
        · next heq =>
            cases hr
            intro h0
            dsimp only at h0
            rw [h0] at heq
            exact hcoeff (heq ▸ Nat.zero_pow (Nat.pos_of_ne_zero hn))
        · cases hr

theorem den_pos_of_rationalPower? {x y : Decimal} (hx : x.coeff ≠ 0) {r : Ratio}
    (h : rationalPower? p x y = some r) : 0 < r.den := by
  have hcoeff : x.canonical.coeff ≠ 0 := by
    obtain ⟨k, hk, -⟩ := Decimal.canonical_spec hx
    intro h0
    rw [h0, Nat.zero_mul] at hk
    exact hx hk
  unfold rationalPower? at h
  dsimp only at h
  split at h
  · exact den_pos_of_integerPower? hcoeff h
  · split at h
    · cases h
    · obtain ⟨base, hb, h⟩ := Option.bind_eq_some_iff.mp h
      refine den_pos_of_integerPower? (root_ne_zero hx ?_ hb) h
      -- the order of the root is what is left of a power of ten
      have hg := Nat.gcd_dvd_right y.canonical.coeff (pow10 (-y.canonical.exp).toNat)
      exact Nat.ne_of_gt (Nat.div_pos (Nat.le_of_dvd (pow10_pos _) hg)
        (Nat.pos_of_dvd_of_pos hg (pow10_pos _)))

theorem short_pow? (hp : 0 < p) {x y : Decimal} (hx : x.coeff ≠ 0) {z : Number}
    (h : pow? p x y = some z) : z.Short p := by
  unfold pow? at h
  dsimp only at h
  split at h
  · cases h
    exact .finite (Decimal.significant_one hp _ _)
  · split at h
    · cases h
      exact Number.short_fit hp (Decimal.significant_round hp _)
    · split at h
      · cases h
        exact .infinite
      · cases h
        exact .finite (Decimal.significant_zero hp _ _)
      · split at h
        · cases h
        · split at h
          · next r hr =>
              cases h
              exact Number.short_fit hp
                (Decimal.significant_ofRatio hp _ _ (den_pos_of_rationalPower? (x := x.abs) hx hr) _)
          · cases h
            exact Number.short_fit hp
              (Decimal.significant_setSign hp (significant_nearest hp _) _)

end Elementary

end Reckoner
