/-
# The size of enclosures

How large the ends of an enclosure can get, whatever they enclose.  The bounds
are crude: a sum is no larger than its number of terms times the largest of
them.  They are all that is needed to see that e, at any precision that can be
asked for, is within the range of exponents, and so is a number: at the unit u it
is at most

    b ^ 256 u    with b = log₂ u + 4    (eight squarings of a series below b u)

It is also needed that the enclosure of ln 10 lies above one, since the argument
one is reduced by multiples of it (`lt_hi_logarithms_ten`).
-/
import Reckoner.Elementary.Exponential
import Reckoner.Elementary.Approximation
import Reckoner.Proofs.Decimal.Digits

namespace Reckoner

theorem natAbs_ediv_le {n : Int} {b d : Nat} (h : n.natAbs ≤ b * d) :
    (n / (d : Int)).natAbs ≤ b := by
  rcases Nat.eq_zero_or_pos d with rfl | hd
  · simp only [Int.natCast_zero, Int.ediv_zero, Int.natAbs_zero, Nat.zero_le]
  · have hpos : (0 : Int) < d := Int.natCast_pos.mpr hd
    have hcast : ((b * d : Nat) : Int) = (b : Int) * d := Int.natCast_mul b d
    have hhigh : n / (d : Int) ≤ b := Int.ediv_le_of_le_mul hpos (by omega)
    have hlow : -(b : Int) ≤ n / (d : Int) :=
      Int.le_ediv_of_mul_le hpos (by rw [Int.neg_mul]; omega)
    omega

theorem natAbs_ceilDiv_le {n : Int} {b d : Nat} (h : n.natAbs ≤ b * d) :
    (ceilDiv n d).natAbs ≤ b := by
  unfold ceilDiv
  rw [Int.natAbs_neg]
  exact natAbs_ediv_le (by rwa [Int.natAbs_neg])

theorem ceilDiv_nonneg {n : Int} (h : 0 ≤ n) (d : Nat) : 0 ≤ ceilDiv n d := by
  unfold ceilDiv
  rcases Nat.eq_zero_or_pos d with rfl | hd
  · simp only [Int.natCast_zero, Int.ediv_zero, Int.neg_zero, Int.le_refl]
  · have : -n / (d : Int) ≤ 0 := Int.ediv_le_of_le_mul (Int.natCast_pos.mpr hd) (by omega)
    omega

/-- A quotient that is rounded up is not below the exact one. -/
theorem le_ceilDiv_mul (n : Int) {d : Nat} (hd : 0 < d) : n ≤ ceilDiv n d * d := by
  unfold ceilDiv
  have := Int.ediv_mul_le (-n) (Int.ne_of_gt (Int.natCast_pos.mpr hd))
  rw [Int.neg_mul]
  omega

namespace Enclosure

/-- Whether neither end is above `b` in magnitude. -/
def Bounded (a : Enclosure) (b : Nat) : Prop := a.lo.natAbs ≤ b ∧ a.hi.natAbs ≤ b

variable {a a' : Enclosure} {b b' : Nat}

theorem Bounded.mono (h : a.Bounded b) (hb : b ≤ b') : a.Bounded b' :=
  ⟨Nat.le_trans h.1 hb, Nat.le_trans h.2 hb⟩

theorem bounded_point (n : Int) : (point n).Bounded n.natAbs :=
  ⟨Nat.le_refl _, Nat.le_refl _⟩

theorem Bounded.add (h : a.Bounded b) (h' : a'.Bounded b') : (a.add a').Bounded (b + b') := by
  obtain ⟨hl, hh⟩ := h
  obtain ⟨hl', hh'⟩ := h'
  constructor
  · simp only [Enclosure.add]
    omega
  · simp only [Enclosure.add]
    omega

theorem Bounded.sub (h : a.Bounded b) (h' : a'.Bounded b') : (a.sub a').Bounded (b + b') := by
  obtain ⟨hl, hh⟩ := h
  obtain ⟨hl', hh'⟩ := h'
  constructor
  · simp only [Enclosure.sub]
    omega
  · simp only [Enclosure.sub]
    omega

theorem Bounded.widen (h : a.Bounded b) (k : Int) : (a.widen k).Bounded (b + k.natAbs) := by
  obtain ⟨hl, hh⟩ := h
  constructor
  · simp only [Enclosure.widen]
    omega
  · simp only [Enclosure.widen]
    omega

theorem Bounded.divNat (h : a.Bounded b) (d : Nat) : (a.divNat d).Bounded b := by
  refine ⟨Nat.le_trans (Int.natAbs_ediv_le_natAbs _ _) h.1, ?_⟩
  simp only [Enclosure.divNat, ceilDiv, Int.natAbs_neg]
  refine Nat.le_trans (Int.natAbs_ediv_le_natAbs _ _) ?_
  rw [Int.natAbs_neg]
  exact h.2

/-- A product of ends over a divisor. -/
theorem Bounded.mulDiv (h : a.Bounded b) (h' : a'.Bounded b') {d m : Nat}
    (hm : b * b' ≤ m * d) : (a.mulDiv a' d).Bounded m := by
  obtain ⟨hl, hh⟩ := h
  obtain ⟨hl', hh'⟩ := h'
  have hprod : ∀ {x y : Int}, x.natAbs ≤ b → y.natAbs ≤ b' → (x * y).natAbs ≤ m * d := by
    intro x y hx hy
    rw [Int.natAbs_mul]
    exact Nat.le_trans (Nat.mul_le_mul hx hy) hm
  have hp := hprod hl hl'
  have hq := hprod hl hh'
  have hr := hprod hh hl'
  have hs := hprod hh hh'
  unfold Enclosure.mulDiv
  split
  · exact ⟨natAbs_ediv_le hp, natAbs_ceilDiv_le hs⟩
  · refine ⟨natAbs_ediv_le ?_, natAbs_ceilDiv_le ?_⟩
    · omega
    · omega

/-! ## Series -/

section

variable {divisor : Nat → Nat} {next : Nat → Enclosure → Enclosure} {power total : Enclosure}

/-- A sum is bounded by its number of terms. -/
theorem bounded_series (alternating : Bool) (divisor : Nat → Nat)
    (next : Nat → Enclosure → Enclosure) (steps k : Nat) {t : Nat} {P : Enclosure → Prop}
    (hP : ∀ a, P a → a.Bounded b) (hnext : ∀ k a, P a → P (next k a))
    (hpower : P power) (htotal : total.Bounded t) :
    (series alternating divisor next steps k power total).Bounded (t + (steps + 2) * b) := by
  have hwiden : ∀ {a p : Enclosure} {s : Nat}, a.Bounded s → P p →
      (a.widen (2 * p.hi)).Bounded (s + 2 * b) := by
    intro a p s ha hp
    refine (ha.widen _).mono ?_
    have := (hP p hp).2
    omega
  induction steps generalizing k power total t with
  | zero =>
      unfold series
      rw [Nat.zero_add]
      exact hwiden htotal hpower
  | succ steps ih =>
      have hterm := (hP power hpower).divNat (divisor k)
      have htotal' : (if (alternating && decide (k % 2 = 1)) = true
          then total.sub (power.divNat (divisor k))
          else total.add (power.divNat (divisor k))).Bounded (t + b) := by
        split
        · exact htotal.sub hterm
        · exact htotal.add hterm
      have hnext' := hnext k power hpower
      have hcount : t + b + (steps + 2) * b = t + (steps + 1 + 2) * b := by
        rw [Nat.add_right_comm steps 1 2, Nat.succ_mul (steps + 2) b]
        omega
      unfold series
      dsimp only
      split
      · refine (hwiden htotal' hnext').mono ?_
        rw [← hcount]
        exact Nat.add_le_add_left (Nat.mul_le_mul_right _ (by omega)) _
      · rw [← hcount]
        exact ih (k + 1) hnext' htotal'

/-- The upper end of a sum of terms that are not negative never falls. -/
theorem le_hi_series (hnext : ∀ k a, 0 ≤ a.hi → 0 ≤ (next k a).hi) {steps k : Nat}
    (hpower : 0 ≤ power.hi) :
    total.hi ≤ (series false divisor next steps k power total).hi := by
  induction steps generalizing k power total with
  | zero =>
      simp only [series, widen]
      omega
  | succ steps ih =>
      have hterm : 0 ≤ (power.divNat (divisor k)).hi := ceilDiv_nonneg hpower _
      have hnext' := hnext k power hpower
      unfold series
      simp only [Bool.false_and, Bool.false_eq_true, if_false]
      split
      · simp only [widen, add]
        omega
      · refine Int.le_trans ?_ (ih hnext')
        simp only [add]
        omega

end

variable {u : Nat}

/-! ## The exponential of one -/

/-- A sum of terms that are not negative is not below its first term. -/
theorem first_le_hi_series {divisor : Nat → Nat} {next : Nat → Enclosure → Enclosure}
    {power : Enclosure} (hnext : ∀ k a, 0 ≤ a.hi → 0 ≤ (next k a).hi) (hdiv : divisor 0 = 1)
    (hpower : 0 ≤ power.hi) (steps : Nat) :
    power.hi ≤ (series false divisor next (steps + 1) 0 power (point 0)).hi := by
  have hterm : (power.divNat (divisor 0)).hi = power.hi := by
    simp only [hdiv, divNat, ceilDiv, Int.natCast_one, Int.ediv_one, Int.neg_neg]
  have hfirst : ((point 0).add (power.divNat (divisor 0))).hi = power.hi := by
    rw [show ((point 0).add (power.divNat (divisor 0))).hi =
      0 + (power.divNat (divisor 0)).hi from rfl, hterm, Int.zero_add]
  have hnext' := hnext 0 power hpower
  unfold series
  simp only [Bool.false_and, Bool.false_eq_true, if_false]
  split
  · simp only [widen]
    omega
  · rw [← hfirst]
    exact le_hi_series hnext hnext'

theorem le_hi_artanhInverse {n : Nat} (hn : 0 < n) : (u : Int) ≤ (artanhInverse u n).hi * n := by
  have hpower : (u : Int) ≤ (ofRatio u 1 n).hi * n := by
    have := le_ceilDiv_mul (1 * u : Int) hn
    simpa only [Int.one_mul, ofRatio] using this
  have hnonneg : 0 ≤ (ofRatio u 1 n).hi := ceilDiv_nonneg (by omega) n
  refine Int.le_trans hpower (Int.mul_le_mul_of_nonneg_right ?_ (Int.natCast_nonneg n))
  exact first_le_hi_series (fun _ _ h => ceilDiv_nonneg h _) rfl hnonneg _

/-- The logarithm of ten is above one. -/
theorem lt_hi_logarithms_ten (hu : 0 < u) : (u : Int) < (logarithms u).ten.hi := by
  have ha := le_hi_artanhInverse (u := u) (n := 31) (by decide)
  have hb := le_hi_artanhInverse (u := u) (n := 49) (by decide)
  have hc := le_hi_artanhInverse (u := u) (n := 161) (by decide)
  have hten : (logarithms u).ten.hi = (artanhInverse u 31).hi * 46 +
      (artanhInverse u 49).hi * 34 + (artanhInverse u 161).hi * 20 := rfl
  rw [hten]
  omega

end Enclosure

namespace Elementary

open Enclosure

theorem bounded_squareTimes {u : Nat} (n : Nat) {k : Nat} {a : Enclosure}
    (h : a.Bounded (k * u)) : (squareTimes u n a).Bounded (k ^ 2 ^ n * u) := by
  induction n generalizing a k with
  | zero => simpa only [squareTimes, Nat.pow_zero, Nat.pow_one] using h
  | succ n ih =>
      have hsq : (mul u a a).Bounded (k * k * u) := by
        refine h.mulDiv h (Nat.le_of_eq ?_)
        rw [Nat.mul_mul_mul_comm, Nat.mul_assoc (k * k)]
      have hpow : k ^ 2 ^ (n + 1) = (k * k) ^ 2 ^ n := by
        rw [Nat.pow_succ 2 n, Nat.mul_comm (2 ^ n), Nat.pow_mul, Nat.pow_two]
      rw [hpow]
      exact ih hsq

theorem bounded_expReduced (u : Nat) :
    (expReduced u (point u)).Bounded ((u.log2 + 4) ^ 2 ^ halvings * u) := by
  refine bounded_squareTimes halvings ?_
  have ht : ((point (u : Int)).divNat (1 <<< halvings)).Bounded u := (bounded_point u).divNat _
  have h := bounded_series false (fun _ => 1)
    (fun k power => power.mulDiv ((point (u : Int)).divNat (1 <<< halvings)) (u * (k + 1)))
    (u.log2 + 2) 0 (P := (·.Bounded u)) (fun _ h => h)
    (fun k _ h => h.mulDiv ht (Nat.mul_le_mul_left u (Nat.le_mul_of_pos_right u k.succ_pos)))
    (bounded_point u) (bounded_point 0)
  rw [Int.natAbs_zero, Nat.zero_add] at h
  exact h

theorem ofDecimal_one (v : Nat) : ofDecimal v Decimal.one.abs = point (pow10 v) := by
  have hexp : Decimal.one.abs.exp + (v : Int) = v := Int.zero_add _
  unfold ofDecimal scale
  rw [hexp, if_pos (Int.natCast_nonneg v), Int.toNat_natCast]
  unfold mulInt
  rw [if_pos (Int.natCast_nonneg _)]
  simp only [point, Decimal.one, Decimal.abs, Bool.false_eq_true, if_false, Int.natCast_one,
    Int.one_mul]

/-- To reduce the argument one, no multiple of ln 10 is subtracted. -/
theorem expMagnitude_one (w : Nat) :
    expMagnitude w Decimal.one = some ⟨expReduced (pow10 (w + reductionDigits))
      (point (pow10 (w + reductionDigits))), -((w + reductionDigits : Nat) : Int)⟩ := by
  have hu := pow10_pos (w + reductionDigits)
  have hn : ((pow10 (w + reductionDigits) : Nat) : Int) /
      (logarithms (pow10 (w + reductionDigits))).ten.hi = 0 :=
    Int.ediv_eq_zero_of_lt (Int.natCast_nonneg _) (lt_hi_logarithms_ten hu)
  simp only [expMagnitude, expOf, ofDecimal_one, Option.bind_eq_bind, Option.bind_some,
    show (point (pow10 (w + reductionDigits) : Int)).lo = pow10 (w + reductionDigits) from rfl,
    Int.natCast_nonneg, if_true, hn, Option.pure_def, Option.some.injEq]
  simp only [mulInt, Int.le_refl, if_true, Int.mul_zero, sub, point, Int.sub_zero, Int.zero_sub]

end Elementary

end Reckoner
