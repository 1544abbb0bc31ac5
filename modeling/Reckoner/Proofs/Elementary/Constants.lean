/-
# e is within range

A constant is not checked before it is used: π and e are brought into range by
`Number.fit`, which would make an infinity of a decimal whose leading digit
stands too far to the left.  At every precision that can be asked for e is
nowhere near that, by the bounds on its enclosures.
-/
import Reckoner.Precision
import Reckoner.Proofs.Decimal.Rounding
import Reckoner.Proofs.Enclosure.Size

namespace Reckoner

theorem log2_pow10_le (w : Nat) : (pow10 w).log2 ≤ 4 * w := by
  have hle : pow10 w ≤ 2 ^ (4 * w) :=
    calc 10 ^ w ≤ 16 ^ w := Nat.pow_le_pow_left (by decide) w
      _ = 2 ^ (4 * w) := (Nat.pow_mul 2 4 w).symm
  have hlt : pow10 w < 2 ^ (4 * w + 1) :=
    Nat.lt_of_le_of_lt hle (Nat.pow_lt_pow_right (by decide) (Nat.lt_succ_self _))
  exact Nat.le_of_lt_succ ((Nat.log2_lt (Nat.ne_of_gt (pow10_pos w))).mpr hlt)

namespace Decimal

/-- Rounding may carry into one more digit in front. -/
theorem magnitude_round_le (p : Nat) (x : Decimal) : (x.round p).magnitude ≤ x.magnitude + 1 := by
  unfold round
  dsimp only
  split
  · omega
  · next h =>
      have hle : halfUp x.coeff (pow10 (x.digits - p)) ≤ pow10 p := by
        refine halfUp_le ?_
        rw [← pow10_add]
        refine Nat.lt_of_lt_of_le (lt_pow10_digitCount x.coeff) (pow10_le_pow10 ?_)
        unfold digits
        omega
      have hdigits : digitCount (halfUp x.coeff (pow10 (x.digits - p))) ≤ p + 1 := by
        rw [digitCount_le_iff (Nat.succ_pos p)]
        exact Nat.lt_of_le_of_lt hle (pow10_lt_pow10.mpr (Nat.lt_succ_self p))
      simp only [magnitude]
      have hd : (Decimal.mk x.negative (halfUp x.coeff (pow10 (x.digits - p)))
        (x.exp + ↑(x.digits - p))).digits =
          digitCount (halfUp x.coeff (pow10 (x.digits - p))) := rfl
      omega

end Decimal

/-- Where all enclosures of a number stay below a power of ten, so does the
nearest decimal. -/
theorem Approximable.magnitude_nearest_le {p : Nat} {f : Approximable} {limit : Int}
    (hlimit : 0 ≤ limit)
    (h : ∀ w a, w ≤ p + 10 * 2 ^ rounds → f w = some a →
      ∃ k : Nat, 0 < k ∧ a.ends.Bounded (pow10 k - 1) ∧ a.exp + k ≤ limit) :
    (nearest p f).magnitude ≤ limit := by
  unfold nearest
  cases hs : search p (Approximation.settle? p) f rounds 10 with
  | none =>
      have hzero : Decimal.zero.digits = 1 := digitCount_zero
      simp only [Option.getD_none, Decimal.magnitude, hzero]
      exact hlimit
  | some x =>
      obtain ⟨w, a, -, hw, ha, ht⟩ := exists_of_search hs
      obtain ⟨k, hk, ⟨hlo, hhi⟩, hexp⟩ := h w a hw ha
      have hpos := pow10_pos k
      -- whichever end is the nearer one, its digits are at most `k`
      have hnear : ∀ near far, a.magnitudes? = some (near, far) → near.magnitude + 1 ≤ limit := by
        intro near far hm
        have hcoeff : near.coeff < pow10 k ∧ near.exp = a.exp := by
          unfold Approximation.magnitudes? at hm
          split at hm
          · cases hm
            exact ⟨Nat.lt_of_le_of_lt hlo (by omega), rfl⟩
          · split at hm
            · cases hm
              exact ⟨Nat.lt_of_le_of_lt hhi (by omega), rfl⟩
            · cases hm
        have hdigits : near.digits ≤ k := (digitCount_le_iff hk).mpr hcoeff.1
        simp only [Decimal.magnitude, hcoeff.2]
        omega
      unfold Approximation.settle? at ht
      cases hm : a.magnitudes? with
      | none =>
          rw [hm] at ht
          cases ht
      | some r =>
          rw [hm] at ht
          simp only [Option.bind_eq_bind, Option.bind_some] at ht
          split at ht
          · cases ht
            exact Int.le_trans (Decimal.magnitude_round_le p r.1) (hnear r.1 r.2 hm)
          · cases ht

namespace Elementary

/-- The working digits that a search may come to. -/
theorem digits_searched_le (p : Precision) {w : Nat}
    (hw : w ≤ p.digits + 10 * 2 ^ Approximable.rounds) : w ≤ 1000163840 := by
  have hr : 10 * 2 ^ Approximable.rounds = 163840 := rfl
  have := p.within
  omega

theorem magnitude_euler_le (p : Precision) : (euler p.digits).magnitude ≤ 2817 := by
  refine Approximable.magnitude_nearest_le (by decide) fun w a hw ha => ?_
  have hw := digits_searched_le p hw
  rw [expMagnitude_one] at ha
  obtain rfl := Option.some.inj ha
  generalize hv : w + reductionDigits = v
  have hv' : v ≤ 1000163860 := by
    rw [← hv, show reductionDigits = 20 from rfl]
    omega
  refine ⟨v + 2817, Nat.succ_pos _, (bounded_expReduced (pow10 v)).mono ?_, ?_⟩
  case refine_2 =>
      show -(v : Int) + (v + 2817 : Nat) ≤ 2817
      omega
  have hlog := log2_pow10_le v
  have hbase : ((pow10 v).log2 + 4) ^ 2 ^ halvings ≤ pow10 2816 := by
    have hexp : 11 * 2 ^ halvings = 2816 := rfl
    rw [← hexp, pow10_eq (11 * 2 ^ halvings), Nat.pow_mul]
    exact Nat.pow_le_pow_left (by omega) _
  have hle : ((pow10 v).log2 + 4) ^ 2 ^ halvings * pow10 v ≤ pow10 (2816 + v) := by
    rw [pow10_add]
    exact Nat.mul_le_mul_right _ hbase
  have hlt : pow10 (2816 + v) < pow10 (v + 2817) := pow10_lt_pow10.mpr (by omega)
  omega

end Elementary

/-- A decimal that is not too large is a finite number: itself, or zero. -/
theorem Number.fit_eq_finite {x : Decimal} (h : x.coeff ≠ 0 → x.magnitude ≤ Number.exponentLimit) :
    ∃ y, Number.fit x = .finite y ∧ (y = x.canonical ∨ y.coeff = 0) := by
  unfold Number.fit
  split
  · exact ⟨_, rfl, Or.inl rfl⟩
  · next hx =>
      have := h hx
      split
      · omega
      · split
        · exact ⟨_, rfl, Or.inr rfl⟩
        · exact ⟨_, rfl, Or.inl rfl⟩

end Reckoner
