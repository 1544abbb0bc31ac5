/-
# Counting digits

`digitCount` starts from an estimate and counts up; here it is shown to be the
number of decimal digits: `digitCount n ≤ p` says `n < 10 ^ p`, once `p` is not
zero.  And a decimal has at most `p` significant digits exactly if it is a
number below `10 ^ p` with zeros behind it (`Decimal.significant_le_iff`).
-/
import Mathlib.Algebra.Group.Nat.Defs
import Reckoner.Decimal.Basic

namespace Reckoner

theorem pow10_eq (k : Nat) : pow10 k = 10 ^ k := rfl

theorem pow10_pos (k : Nat) : 0 < pow10 k := Nat.pow_pos (by decide)

theorem pow10_add (j k : Nat) : pow10 (j + k) = pow10 j * pow10 k := Nat.pow_add 10 j k

theorem pow10_le_pow10 {j k : Nat} (h : j ≤ k) : pow10 j ≤ pow10 k :=
  Nat.pow_le_pow_right (by decide) h

theorem pow10_lt_pow10 {j k : Nat} : pow10 j < pow10 k ↔ j < k :=
  Nat.pow_lt_pow_iff_right (by decide)

/-! ## The count -/

theorem digitCount_go_spec (n k : Nat) (h : k = 0 ∨ pow10 k ≤ n) :
    n < pow10 (digitCount.go n k) ∧
      (digitCount.go n k = 1 ∨ pow10 (digitCount.go n k - 1) ≤ n) := by
  induction k using digitCount.go.induct n with
  | case1 k hk ih =>
      rw [digitCount.go, if_pos hk]
      exact ih (Or.inr hk)
  | case2 k hk =>
      rw [digitCount.go, if_neg hk]
      refine ⟨Nat.not_le.mp hk, ?_⟩
      rcases h with rfl | h
      · exact Or.inl rfl
      · exact Or.inr h

/-- A fraction `a / b` below the decimal logarithm of two gives an estimate
from below. -/
theorem pow10_estimate_le {a b n : Nat} (hb : b ≠ 0) (hab : 10 ^ a ≤ 2 ^ b) (hn : n ≠ 0) :
    pow10 (n.log2 * a / b) ≤ n := by
  have hfloor : n.log2 * a / b * b ≤ a * n.log2 := by
    rw [Nat.mul_comm a]
    exact Nat.div_mul_le_self _ _
  have hpow : (10 ^ (n.log2 * a / b)) ^ b ≤ (2 ^ n.log2) ^ b :=
    calc (10 ^ (n.log2 * a / b)) ^ b
        = 10 ^ (n.log2 * a / b * b) := (Nat.pow_mul _ _ _).symm
      _ ≤ 10 ^ (a * n.log2) := Nat.pow_le_pow_right (by decide) hfloor
      _ = (10 ^ a) ^ n.log2 := Nat.pow_mul _ _ _
      _ ≤ (2 ^ b) ^ n.log2 := Nat.pow_le_pow_left hab _
      _ = (2 ^ n.log2) ^ b := by rw [← Nat.pow_mul, Nat.mul_comm, Nat.pow_mul]
  exact Nat.le_trans ((Nat.pow_le_pow_iff_left hb).mp hpow) (Nat.log2_self_le hn)

theorem digitCount_spec (n : Nat) :
    n < pow10 (digitCount n) ∧ (digitCount n = 1 ∨ pow10 (digitCount n - 1) ≤ n) := by
  refine digitCount_go_spec n _ ?_
  by_cases hn : n = 0
  · subst hn
    exact Or.inl (by decide)
  · exact Or.inr (pow10_estimate_le (by decide) (by decide +kernel) hn)

theorem lt_pow10_digitCount (n : Nat) : n < pow10 (digitCount n) := (digitCount_spec n).1

theorem digitCount_le_iff {n p : Nat} (hp : 0 < p) : digitCount n ≤ p ↔ n < pow10 p := by
  constructor
  · intro h
    exact Nat.lt_of_lt_of_le (lt_pow10_digitCount n) (pow10_le_pow10 h)
  · intro h
    rcases (digitCount_spec n).2 with h1 | hle
    · omega
    · have := pow10_lt_pow10.mp (Nat.lt_of_le_of_lt hle h)
      omega

theorem digitCount_pos (n : Nat) : 0 < digitCount n := by
  rcases (digitCount_spec n).2 with h | h
  · omega
  · refine Nat.pos_of_ne_zero fun h0 => ?_
    have := (digitCount_spec n).1
    rw [h0] at this h
    exact Nat.lt_irrefl _ (Nat.lt_of_lt_of_le this h)

/-- The leading digit of a number that is not zero is not a zero. -/
theorem pow10_digitCount_le {n : Nat} (hn : n ≠ 0) : pow10 (digitCount n - 1) ≤ n := by
  rcases (digitCount_spec n).2 with h | h
  · rw [h]
    exact Nat.pos_of_ne_zero hn
  · exact h

theorem digitCount_zero : digitCount 0 = 1 :=
  Nat.le_antisymm ((digitCount_le_iff (by decide)).mpr (by decide)) (digitCount_pos 0)

/-- Zeros behind a number that is not zero add to its digits. -/
theorem digitCount_mul_pow10 {n : Nat} (hn : n ≠ 0) (k : Nat) :
    digitCount (n * pow10 k) = digitCount n + k := by
  have hpos := digitCount_pos n
  apply Nat.le_antisymm
  · rw [digitCount_le_iff (by omega), pow10_add]
    exact Nat.mul_lt_mul_of_pos_right (lt_pow10_digitCount n) (pow10_pos k)
  · refine Nat.le_of_not_lt fun hlt => ?_
    have hlow := pow10_digitCount_le hn
    have hle : digitCount (n * pow10 k) ≤ digitCount n + k - 1 := by omega
    by_cases h1 : digitCount n + k - 1 = 0
    · have := digitCount_pos (n * pow10 k)
      omega
    · rw [digitCount_le_iff (by omega),
        show digitCount n + k - 1 = digitCount n - 1 + k by omega, pow10_add] at hle
      exact absurd hle (Nat.not_lt.mpr (Nat.mul_le_mul_right _ hlow))

/-! ## Trailing zeros -/

namespace Decimal

theorem strip_spec (c : Nat) (e : Int) :
    ∃ k : Nat, c = (strip c e).1 * pow10 k ∧ (strip c e).2 = e + k := by
  induction c, e using strip.induct with
  | case1 c e h ih =>
      obtain ⟨k, hc, he⟩ := ih
      rw [strip, dif_pos h]
      refine ⟨k + 1, ?_, ?_⟩
      · have hten : c / 10 * 10 = c := Nat.div_mul_cancel (Nat.dvd_of_mod_eq_zero h.2)
        rw [pow10_add, ← Nat.mul_assoc, ← hc]
        exact hten.symm
      · rw [he]
        omega
  | case2 c e h =>
      rw [strip, dif_neg h]
      exact ⟨0, (Nat.mul_one c).symm, by omega⟩

theorem strip_mod {c : Nat} (hc : c ≠ 0) (e : Int) : (strip c e).1 % 10 ≠ 0 := by
  induction c, e using strip.induct with
  | case1 c e h ih =>
      rw [strip, dif_pos h]
      refine ih ?_
      have := Nat.dvd_of_mod_eq_zero h.2
      omega
  | case2 c e h =>
      rw [strip, dif_neg h]
      exact fun h0 => h ⟨hc, h0⟩

theorem canonical_of_zero {x : Decimal} (h : x.coeff = 0) :
    x.canonical = ⟨x.negative, 0, 0⟩ := by
  unfold canonical
  rw [if_pos h]

/-- The canonical form is the same number with its zeros in the exponent. -/
theorem canonical_spec {x : Decimal} (h : x.coeff ≠ 0) :
    ∃ k : Nat, x.coeff = x.canonical.coeff * pow10 k ∧ x.canonical.exp = x.exp + k ∧
      x.canonical.negative = x.negative ∧ x.canonical.coeff % 10 ≠ 0 := by
  obtain ⟨k, hc, he⟩ := strip_spec x.coeff x.exp
  unfold canonical
  rw [if_neg h]
  exact ⟨k, hc, he, rfl, strip_mod h x.exp⟩

theorem negative_canonical (x : Decimal) : x.canonical.negative = x.negative := by
  unfold canonical
  split
  · rfl
  · rfl

theorem canonical_neg (x : Decimal) : x.neg.canonical = x.canonical.neg := by
  unfold canonical neg
  split
  · rfl
  · rfl

theorem canonical_abs (x : Decimal) : x.abs.canonical = x.canonical.abs := by
  unfold canonical abs
  split
  · rfl
  · rfl

theorem coeff_canonical_eq_zero {x : Decimal} : x.canonical.coeff = 0 ↔ x.coeff = 0 := by
  by_cases h : x.coeff = 0
  · exact iff_of_true (congrArg coeff (canonical_of_zero h)) h
  · obtain ⟨k, hc, -⟩ := canonical_spec h
    refine iff_of_false (fun h0 => h ?_) h
    rw [hc, h0, Nat.zero_mul]

/-- A coefficient that does not end in zero is the shortest. -/
theorem canonical_of_mod {x : Decimal} (h : x.coeff % 10 ≠ 0) : x.canonical = x := by
  have hne : x.coeff ≠ 0 := fun h0 => h (by rw [h0])
  unfold canonical
  rw [if_neg hne, strip, dif_neg fun hstrip => h hstrip.2]

theorem canonical_canonical (x : Decimal) : x.canonical.canonical = x.canonical := by
  by_cases h : x.coeff = 0
  · rw [canonical_of_zero h]
    exact canonical_of_zero rfl
  · obtain ⟨-, -, -, -, hmod⟩ := canonical_spec h
    exact canonical_of_mod hmod

theorem significant_canonical (x : Decimal) : x.canonical.significant = x.significant :=
  congrArg digits x.canonical_canonical

/-- Of all ways to write a number with zeros behind it, the one that does not
end in zero has the least number in front. -/
theorem le_of_mul_pow10_eq {c m j k : Nat} (hc : c % 10 ≠ 0)
    (h : c * pow10 j = m * pow10 k) : c ≤ m := by
  rcases Nat.lt_or_ge j k with hjk | hjk
  · obtain ⟨i, rfl⟩ := Nat.exists_eq_add_of_lt hjk
    rw [show j + i + 1 = (i + 1) + j by omega, pow10_add, ← Nat.mul_assoc] at h
    have hm := Nat.eq_of_mul_eq_mul_right (pow10_pos j) h
    rw [pow10_add, ← Nat.mul_assoc] at hm
    exact absurd (hm ▸ Nat.mul_mod_left _ 10) hc
  · obtain ⟨i, rfl⟩ := Nat.exists_eq_add_of_le hjk
    rw [show k + i = i + k by omega, pow10_add, ← Nat.mul_assoc] at h
    have hm := Nat.eq_of_mul_eq_mul_right (pow10_pos k) h
    rw [← hm]
    exact Nat.le_mul_of_pos_right c (pow10_pos i)

theorem significant_le_iff {x : Decimal} {p : Nat} (hp : 0 < p) :
    x.significant ≤ p ↔ ∃ m k, m < pow10 p ∧ x.coeff = m * pow10 k := by
  unfold significant digits
  rw [digitCount_le_iff hp]
  by_cases h : x.coeff = 0
  · rw [canonical_of_zero h]
    exact ⟨fun h0 => ⟨0, 0, h0, by rw [h, Nat.zero_mul]⟩, fun _ => pow10_pos p⟩
  · obtain ⟨j, hc, -, -, hmod⟩ := canonical_spec h
    constructor
    · intro hlt
      exact ⟨x.canonical.coeff, j, hlt, hc⟩
    · rintro ⟨m, k, hm, hx⟩
      exact Nat.lt_of_le_of_lt (le_of_mul_pow10_eq hmod (hc.symm.trans hx)) hm

theorem significant_le_of_coeff_lt {x : Decimal} {p : Nat} (hp : 0 < p)
    (h : x.coeff < pow10 p) : x.significant ≤ p :=
  (significant_le_iff hp).mpr ⟨x.coeff, 0, h, (Nat.mul_one _).symm⟩

/-- A coefficient that a carry has brought to the next power of ten still has
few significant digits. -/
theorem significant_le_of_coeff_le {x : Decimal} {p : Nat} (hp : 0 < p)
    (h : x.coeff ≤ pow10 p) : x.significant ≤ p := by
  rcases Nat.lt_or_eq_of_le h with h | h
  · exact significant_le_of_coeff_lt hp h
  · refine (significant_le_iff hp).mpr ⟨1, p, ?_, by rw [h, Nat.one_mul]⟩
    exact pow10_lt_pow10.mpr hp

/-- Only the coefficient tells how many digits are significant. -/
theorem significant_congr {x y : Decimal} {p : Nat} (hp : 0 < p) (h : x.coeff = y.coeff) :
    x.significant ≤ p ↔ y.significant ≤ p := by
  rw [significant_le_iff hp, significant_le_iff hp, h]

/-- A sign changes no digit. -/
theorem significant_setSign {x : Decimal} {p : Nat} (hp : 0 < p) (h : x.significant ≤ p)
    (negative : Bool) : ({ x with negative := negative } : Decimal).significant ≤ p :=
  (significant_congr (x := { x with negative := negative }) (y := x) hp rfl).mpr h

end Decimal

end Reckoner
