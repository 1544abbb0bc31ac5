/-
# Digits of rounded results

A result that is rounded to `p` digits has at most `p` significant ones, also
where a carry makes one more digit: that digit is a one with zeros behind it.
The operations that never round, those that cut a number to an integer, keep
the bound that their operand has.
-/
import Reckoner.Decimal.Arithmetic
import Reckoner.Decimal.Integral
import Reckoner.Elementary.Approximation
import Reckoner.Proofs.Decimal.Digits

namespace Reckoner

theorem halfUp_le {n d m : Nat} (h : n < d * m) : halfUp n d ≤ m := by
  have hd : 0 < d := Nat.pos_of_mul_pos_right (Nat.zero_lt_of_lt h)
  refine Nat.le_of_lt_succ ((Nat.div_lt_iff_lt_mul (by omega)).mpr ?_)
  have hm : m.succ * (2 * d) = 2 * (d * m) + 2 * d := by
    rw [Nat.succ_mul, Nat.mul_left_comm, Nat.mul_comm m d]
  omega

namespace Decimal

variable {p : Nat}

theorem significant_round (hp : 0 < p) (x : Decimal) : (x.round p).significant ≤ p := by
  unfold round
  dsimp only
  split
  · next h =>
      refine significant_le_of_coeff_lt hp ((digitCount_le_iff hp).mp ?_)
      unfold digits at h
      omega
  · next h =>
      refine significant_le_of_coeff_le hp (halfUp_le ?_)
      rw [← pow10_add]
      refine Nat.lt_of_lt_of_le (lt_pow10_digitCount x.coeff) (pow10_le_pow10 ?_)
      unfold digits
      omega

theorem coeff_round_of_zero {x : Decimal} (h : x.coeff = 0) (p : Nat) : (x.round p).coeff = 0 := by
  unfold round
  dsimp only
  split
  · exact h
  · have := pow10_pos (x.digits - p)
    simp only [halfUp, h, Nat.mul_zero, Nat.zero_add]
    exact Nat.div_eq_of_lt (by omega)

theorem significant_roundRatio (hp : 0 < p) (negative : Bool) (n : Nat) {d : Nat} (hd : 0 < d)
    (e : Int) : (roundRatio p negative n d e).significant ≤ p := by
  unfold roundRatio
  refine significant_le_of_coeff_le hp (halfUp_le ?_)
  generalize n * pow10 _ = scaled
  have hq : scaled / d < pow10 (digitCount (scaled / d) - p) * pow10 p := by
    rw [← pow10_add]
    exact Nat.lt_of_lt_of_le (lt_pow10_digitCount _) (pow10_le_pow10 (by omega))
  have hlt := (Nat.div_lt_iff_lt_mul hd).mp hq
  rwa [Nat.mul_comm, ← Nat.mul_assoc] at hlt

theorem significant_zero (hp : 0 < p) (negative : Bool) (e : Int) :
    (Decimal.mk negative 0 e).significant ≤ p :=
  significant_le_of_coeff_lt hp (pow10_pos p)

theorem significant_one (hp : 0 < p) (negative : Bool) (e : Int) :
    (Decimal.mk negative 1 e).significant ≤ p :=
  significant_le_of_coeff_lt hp (Nat.one_lt_pow (by omega) (by decide))

theorem significant_of_isZero (hp : 0 < p) {x : Decimal} (h : x.coeff = 0) :
    x.significant ≤ p :=
  significant_le_of_coeff_lt hp (h ▸ pow10_pos p)

theorem significant_ofRatio (hp : 0 < p) (negative : Bool) (n : Nat) {d : Nat} (hd : 0 < d)
    (e : Int) : (ofRatio p negative n d e).significant ≤ p := by
  unfold ofRatio
  dsimp only
  split
  · exact significant_zero hp _ _
  · split
    · exact significant_round hp _
    · exact significant_roundRatio hp _ _ hd _

theorem significant_addRounded (hp : 0 < p) (x y : Decimal) :
    (x.addRounded p y).significant ≤ p := by
  have haligned : ∀ hi lo : Decimal, (addAligned p hi lo).significant ≤ p := by
    intro hi lo
    unfold addAligned
    dsimp only
    split
    · exact significant_round hp _
    · exact significant_round hp _
  unfold addRounded
  split
  · exact significant_zero hp _ _
  · split
    · exact significant_round hp _
    · split
      · exact significant_round hp _
      · split
        · exact haligned _ _
        · exact haligned _ _

theorem significant_modRounded (hp : 0 < p) (x y : Decimal) :
    (x.modRounded p y).significant ≤ p := by
  unfold modRounded
  split
  · next h => exact significant_of_isZero hp h
  · dsimp only
    split
    · exact significant_zero hp _ _
    · split
      · exact significant_round hp _
      · exact significant_addRounded hp _ _

/-- A number cut or raised to an integer has no more significant digits than
before: only digits in front are left, and if a carry could lengthen them, at
least one behind has gone. -/
theorem significant_toIntegral (hp : 0 < p) (outward : Bool) {x : Decimal}
    (hx : x.significant ≤ p) : (x.toIntegral outward).significant ≤ p := by
  unfold toIntegral
  split
  · exact hx
  · dsimp only
    split
    · refine significant_le_of_coeff_lt hp ?_
      dsimp only
      split
      · exact Nat.one_lt_pow (by omega) (by decide)
      · exact pow10_pos p
    · obtain ⟨m, k, hm, hc⟩ := (significant_le_iff hp).mp hx
      generalize (-x.exp).toNat = drop
      rw [hc]
      rcases Nat.lt_or_ge k drop with hk | hk
      · obtain ⟨i, rfl⟩ := Nat.exists_eq_add_of_lt hk
        -- more is cut off than the zeros behind `m`, which leaves room for a carry
        have hq : m * pow10 k / pow10 (k + i + 1) < pow10 p := by
          refine (Nat.div_lt_iff_lt_mul (pow10_pos _)).mpr ?_
          refine Nat.lt_of_lt_of_le (Nat.mul_lt_mul_of_pos_right hm (pow10_pos k)) ?_
          exact Nat.mul_le_mul_left _ (pow10_le_pow10 (by omega))
        refine significant_le_of_coeff_le hp ?_
        dsimp only
        split
        · exact hq
        · exact Nat.le_of_lt hq
      · obtain ⟨i, rfl⟩ := Nat.exists_eq_add_of_le hk
        have he : m * pow10 (drop + i) = m * pow10 i * pow10 drop := by
          rw [Nat.add_comm, pow10_add, Nat.mul_assoc]
        rw [he, Nat.mul_mod_left, Nat.mul_div_cancel _ (pow10_pos drop)]
        refine (significant_le_iff hp).mpr ⟨m, i, hm, ?_⟩
        simp only [ne_eq, not_true_eq_false, decide_false, Bool.and_false, Bool.false_eq_true,
          if_false]

end Decimal

/-- Every number that a search for a nearest decimal settles on is rounded. -/
theorem Approximation.significant_of_settle? {p : Nat} (hp : 0 < p) {a : Approximation}
    {x : Decimal} (h : a.settle? p = some x) : x.significant ≤ p := by
  unfold settle? at h
  cases hm : a.magnitudes? with
  | none =>
      rw [hm] at h
      cases h
  | some r =>
      rw [hm] at h
      simp only [Option.bind_eq_bind, Option.bind_some] at h
      split at h
      · cases h
        exact Decimal.significant_round hp _
      · cases h

/-- What a search finds has passed the test at some number of digits. -/
theorem Approximable.exists_of_search {α : Type} {p : Nat} {test : Approximation → Option α}
    {f : Approximable} {rounds guard : Nat} {r : α}
    (h : search p test f rounds guard = some r) :
    ∃ w a, p + guard ≤ w ∧ w ≤ p + guard * 2 ^ rounds ∧ f w = some a ∧ test a = some r := by
  induction rounds generalizing guard with
  | zero => cases h
  | succ rounds ih =>
      unfold search at h
      split at h
      · next r' hr =>
          cases h
          obtain ⟨a, ha, ht⟩ := Option.bind_eq_some_iff.mp hr
          exact ⟨p + guard, a, Nat.le_refl _, Nat.add_le_add_left
            (Nat.le_mul_of_pos_right _ (Nat.two_pow_pos _)) _, ha, ht⟩
      · obtain ⟨w, a, hlow, hhigh, ha, ht⟩ := ih h
        refine ⟨w, a, by omega, ?_, ha, ht⟩
        rw [Nat.pow_succ, Nat.mul_comm (2 ^ rounds), ← Nat.mul_assoc, Nat.mul_comm guard]
        exact hhigh

theorem Approximable.significant_nearest {p : Nat} (hp : 0 < p) (f : Approximable) :
    (nearest p f).significant ≤ p := by
  unfold nearest
  cases hs : search p (Approximation.settle? p) f rounds 10 with
  | none => exact Decimal.significant_zero hp _ _
  | some x =>
      obtain ⟨_, a, -, -, -, ha⟩ := exists_of_search hs
      exact Approximation.significant_of_settle? hp ha

end Reckoner
