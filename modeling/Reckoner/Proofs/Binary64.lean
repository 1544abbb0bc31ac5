/-
# Double precision numbers as rationals

A finite number of the format is the rational number `± m · 2^e`, and its exact
decimal is the same number.  So integers and the order of numbers are those of
the rationals (`isInteger_iff`, `lt_iff`).

Counts come as double precision numbers.  A natural number below `2^53` is one
of these, so nothing of it is lost on the way and back (`toNat?_ofNat`).  A
larger one is rounded, or becomes an infinity, and is never taken for a number
below `2^53` (`ofNat_of_le`, `eq_of_toNat?_ofNat`).  In the order too a count is
a natural number, which is how a count of zero is told from all others
(`ofNat_lt_one_iff`).
-/
import Mathlib.Data.Rat.Floor
import Reckoner.Binary64
import Reckoner.Proofs.Decimal.Scale

namespace Reckoner

theorem pow2_eq (k : Nat) : pow2 k = 2 ^ k := Nat.one_shiftLeft k

/-- A decimal without zeros at its end is a natural number if it has no minus
sign and no digit behind the point. -/
theorem Decimal.toRat_eq_natCast_iff {x : Decimal} (h : x.coeff % 10 ≠ 0) (n : Nat) :
    x.toRat = n ↔ x.negative = false ∧ 0 ≤ x.exp ∧ x.coeff * pow10 x.exp.toNat = n := by
  have hx : x.coeff ≠ 0 := fun h0 => h (by rw [h0])
  have habs := toRat_abs x
  have hpos := toRat_abs_pos hx
  have hn : (0 : Rat) ≤ n := Rat.natCast_nonneg
  cases hneg : x.negative with
  | true =>
      rw [hneg, if_pos rfl] at habs
      simp only [reduceCtorEq, false_and, iff_false]
      grind
  | false =>
      have hrat : x.toRat = x.coeff * 10 ^ x.exp := by
        rw [toRat, hneg, if_neg Bool.false_ne_true]
      rw [hrat]
      by_cases hexp : 0 ≤ x.exp
      · have hscale := ten_zpow_eq hexp
        rw [Rat.zpow_zero, Rat.mul_one, Int.sub_zero] at hscale
        rw [hscale, ← Rat.natCast_mul, Rat.natCast_inj]
        exact ⟨fun h => ⟨rfl, hexp, h⟩, fun h => h.2.2⟩
      · refine ⟨fun heq => ?_, fun h => absurd h.2.1 hexp⟩
        -- the coefficient would end in the zeros that the exponent cuts off
        obtain ⟨k, hk⟩ : ∃ k, (0 - x.exp).toNat = k + 1 := ⟨(0 - x.exp).toNat - 1, by omega⟩
        have hscale := ten_zpow_eq (show x.exp ≤ 0 by omega)
        rw [Rat.zpow_zero] at hscale
        have hcut : ((x.coeff : Int) : Rat) * 10 ^ x.exp =
            ((n * pow10 (0 - x.exp).toNat : Nat) : Int) * 10 ^ x.exp := by
          rw [Rat.intCast_natCast, Rat.intCast_natCast, heq, Rat.natCast_mul, Rat.mul_assoc,
            ← hscale, Rat.mul_one]
        have hcoeff := Int.natCast_inj.mp (mul_ten_zpow_cancel hcut)
        rw [hk, pow10_add, ← Nat.mul_assoc] at hcoeff
        exact absurd (hcoeff ▸ Nat.mul_mod_left _ 10) h

/-- A decimal is an integer if it needs no digits behind the point. -/
theorem Decimal.isInteger_iff {x : Decimal} : x.isInteger = true ↔ ∃ k : Int, x.toRat = k := by
  rw [isInteger, Bool.or_eq_true, beq_iff_eq, decide_eq_true_eq, ← toRat_canonical]
  by_cases hx : x.coeff = 0
  · simp only [hx, true_or, true_iff]
    exact ⟨0, by rw [toRat_canonical, toRat_of_zero hx, Int.cast_zero]⟩
  · obtain ⟨-, -, -, -, hmod⟩ := canonical_spec hx
    simp only [hx, false_or]
    generalize x.canonical = y at hmod ⊢
    constructor
    · intro hexp
      exact ⟨y.coeffAt 0, by rw [toRat_eq_coeffAt y hexp, Rat.zpow_zero, Rat.mul_one]⟩
    · rintro ⟨k, hk⟩
      have habs : y.abs.toRat = (k.natAbs : Nat) := by
        rw [← abs_of_nonneg (toRat_abs_nonneg y), Nat.cast_natAbs, Int.cast_abs, ← hk,
          toRat_abs y]
        split
        · rw [abs_neg]
        · rfl
      exact ((toRat_eq_natCast_iff (x := y.abs) hmod _).mp habs).2.1

namespace Binary64

variable {n : Nat}

/-- The rational number that a finite number is. -/
def value? : Binary64 → Option Rat
  | finite s m e => some ((if s then -(m : Rat) else m) * 2 ^ e)
  | _ => none

theorem toRat_exact (s : Bool) (m : Nat) (e : Int) :
    (exact s m e).toRat = (if s then -(m : Rat) else m) * 2 ^ e := by
  unfold exact Decimal.toRat
  split
  · next h =>
      obtain ⟨k, rfl⟩ := Int.eq_ofNat_of_zero_le h
      rw [zpow_natCast]
      simp only [Int.toNat_natCast, pow2_eq, zpow_zero, mul_one]
      split <;> push_cast <;> ring
  · next h =>
      obtain ⟨k, rfl⟩ : ∃ k : Nat, e = -k := ⟨(-e).toNat, by omega⟩
      have hten : (10 : Rat) ^ (-(k : Int)) = 2 ^ (-(k : Int)) * 5 ^ (-(k : Int)) := by
        rw [← mul_zpow]
        norm_num
      have hfive : (5 : Rat) ^ k * 5 ^ (-(k : Int)) = 1 := by
        rw [zpow_neg, zpow_natCast, mul_inv_cancel₀ (by positivity)]
      have hmul : (m : Rat) * 5 ^ k * (2 ^ (-(k : Int)) * 5 ^ (-(k : Int))) =
          m * 2 ^ (-(k : Int)) := by
        rw [mul_mul_mul_comm, hfive, mul_one]
      simp only [neg_neg, Int.toNat_natCast, Nat.pow_eq, hten]
      split <;> push_cast
      · rw [neg_mul, neg_mul, hmul]
      · exact hmul

theorem value?_eq_some_iff {x : Binary64} {q : Rat} :
    x.value? = some q ↔ ∃ y, x.toNumber = .finite y ∧ y.toRat = q := by
  cases x with
  | finite s m e =>
      simp only [value?, toNumber, Number.finite.injEq, exists_eq_left', toRat_exact,
        Option.some.injEq]
  | infinite | nan => simp only [value?, toNumber, reduceCtorEq, false_and, exists_false]

theorem isInteger_iff {x : Binary64} :
    x.isInteger = true ↔ ∃ k : Int, x.value? = some (k : Rat) := by
  cases x with
  | finite s m e =>
      refine Decimal.isInteger_iff.trans ?_
      simp only [value?, toRat_exact, Option.some.injEq]
  | infinite | nan => simp only [isInteger, toNumber, Number.isInteger, value?, reduceCtorEq,
      exists_false, Bool.false_eq_true]

theorem lt_iff {x y : Binary64} {q r : Rat} (hx : x.value? = some q) (hy : y.value? = some r) :
    x.lt y = true ↔ q < r := by
  obtain ⟨x', hx', rfl⟩ := value?_eq_some_iff.mp hx
  obtain ⟨y', hy', rfl⟩ := value?_eq_some_iff.mp hy
  rw [lt, hx', hy']
  exact Decimal.lt_iff

theorem toNat?_eq_some_iff {x : Binary64} : x.toNat? = some n ↔ x.value? = some (n : Rat) := by
  cases x with
  | infinite | nan => simp only [toNat?, value?, reduceCtorEq]
  | finite s m e =>
      simp only [toNat?, value?, Option.some.injEq, ← toRat_exact]
      generalize exact s m e = x
      rw [← Decimal.toRat_canonical]
      by_cases hx : x.coeff = 0
      · rw [Decimal.canonical_of_zero hx, Decimal.toRat_of_zero rfl, if_pos rfl, Option.some.injEq]
        exact ⟨fun h => h ▸ rfl, fun h => Rat.natCast_inj.mp h⟩
      · obtain ⟨-, -, -, -, hmod⟩ := Decimal.canonical_spec hx
        have hne : x.canonical.coeff ≠ 0 := fun h0 => hmod (by rw [h0])
        rw [Decimal.toRat_eq_natCast_iff hmod, if_neg hne]
        by_cases hexp : x.canonical.exp < 0
        · have : ¬ 0 ≤ x.canonical.exp := by omega
          simp only [hexp, this, decide_true, Bool.or_true, if_true, reduceCtorEq, false_and,
            and_false]
        · have : 0 ≤ x.canonical.exp := by omega
          cases x.canonical.negative <;>
            simp only [hexp, this, decide_false, Bool.or_false, Bool.false_eq_true, if_false,
              if_true, reduceCtorEq, Option.some.injEq, true_and, false_and]

/-! ## Natural numbers below `2^53` -/

theorem halfEven_mul {d : Nat} (hd : 0 < d) (q : Nat) : halfEven (q * d) d = q := by
  simp only [halfEven, Nat.mul_div_cancel _ hd, Nat.mul_mod_left, Nat.mul_zero, hd, decide_true,
    Bool.true_or, if_true]

/-- Where `2^k` is what a mantissa lacks in size, nothing is rounded. -/
theorem assemble_one {k : Nat} (hk : k ≤ 52) (h : n * pow2 k < pow2 53) :
    assemble false n 1 (-k) = finite false (n * pow2 k) (-k) := by
  have hm : (if (0 : Int) ≤ -k then halfEven n (1 * pow2 (-(k : Int)).toNat)
      else halfEven (n * pow2 (-(-(k : Int))).toNat) 1) = n * pow2 k := by
    split
    · next hle =>
        obtain rfl : k = 0 := by omega
        exact (congrArg (halfEven · 1) (Nat.mul_one n).symm).trans
          ((halfEven_mul Nat.one_pos n).trans (Nat.mul_one n).symm)
    · rw [Int.neg_neg, Int.toNat_natCast]
      exact (congrArg (halfEven · 1) (Nat.mul_one _).symm).trans (halfEven_mul Nat.one_pos _)
  have hexp : ¬ 971 < (-k : Int) := by omega
  simp only [assemble, hm, Nat.ne_of_lt h, if_false, hexp]

/-- The number nearest to a natural number has its leading binary digit at the
place `2^52`. -/
theorem ofRatio_one (h0 : n ≠ 0) (h : n < 2 ^ 53) :
    ∃ k, k ≤ 52 ∧ ofRatio false n 1 = finite false (n * pow2 k) (-k) := by
  have hlog : n.log2 ≤ 52 := Nat.lt_succ_iff.mp ((Nat.log2_lt h0).mpr h)
  obtain ⟨k, hk⟩ : ∃ k, k = 52 - n.log2 := ⟨_, rfl⟩
  have hlow : pow2 52 ≤ n * pow2 k := by
    have := Nat.mul_le_mul_right (2 ^ k) (Nat.log2_self_le h0)
    rwa [← Nat.pow_add, show n.log2 + k = 52 by omega, ← pow2_eq, ← pow2_eq] at this
  have hhigh : n * pow2 k < pow2 53 := by
    have := Nat.mul_lt_mul_of_pos_right (Nat.lt_log2_self (n := n)) (Nat.two_pow_pos k)
    rwa [← Nat.pow_add, show n.log2 + 1 + k = 53 by omega, ← pow2_eq, ← pow2_eq] at this
  have hexp : (n.log2 : Int) - (Nat.log2 1 : Nat) - 52 = -k := by
    rw [show Nat.log2 1 = 0 by decide]
    omega
  have hfits : ¬ (if (0 : Int) ≤ -k then n < pow2 52 * 1 * pow2 (-(k : Int)).toNat
      else n * pow2 (-(-(k : Int))).toNat < pow2 52 * 1) := by
    split
    · next hle =>
        obtain rfl : k = 0 := by omega
        rw [Nat.not_lt, Nat.mul_one]
        exact Nat.mul_one n ▸ hlow
    · rw [Int.neg_neg, Int.toNat_natCast, Nat.mul_one]
      exact Nat.not_lt.mpr hlow
  have hleast : ¬ (-k : Int) < leastExponent := by
    unfold leastExponent
    omega
  refine ⟨k, by omega, ?_⟩
  simp only [ofRatio, h0, if_false, hexp, hfits, hleast]
  exact assemble_one (by omega) hhigh

/-- Twos and fives make tens. -/
theorem exact_shifted (n k : Nat) : exact false (n * pow2 k) (-k) = (Decimal.ofNat n).padded k := by
  unfold exact
  split
  · next hle =>
      obtain rfl : k = 0 := by omega
      rw [Decimal.padded_zero, show n * pow2 0 * pow2 (-((0 : Nat) : Int)).toNat = n from
        (Nat.mul_one _).trans (Nat.mul_one n)]
      rfl
  · have hten : pow2 k * Nat.pow 5 k = pow10 k := by
      rw [pow2_eq, pow10_eq, Nat.pow_eq, ← Nat.mul_pow]
    rw [Int.neg_neg, Int.toNat_natCast, Nat.mul_assoc, hten]
    simp only [Decimal.padded, Decimal.ofNat, Int.zero_sub]

/-- A natural number below `2^53` is a double precision number. -/
theorem value?_ofNat (h : n < 2 ^ 53) : (ofNat n).value? = some (n : Rat) := by
  by_cases h0 : n = 0
  · subst h0
    rw [value?_eq_some_iff]
    exact ⟨_, rfl, Decimal.toRat_of_zero (Nat.zero_mul _)⟩
  · have hdigits : digitCount n ≤ 16 :=
      (digitCount_le_iff (by decide)).mpr (Nat.lt_trans h (by decide))
    have hsize : (Decimal.ofNat n).magnitude = digitCount n - 1 := by
      simp only [Decimal.magnitude, Decimal.ofNat, Decimal.digits]
      omega
    have hpos := digitCount_pos n
    obtain ⟨k, hk, hratio⟩ := ofRatio_one h0 h
    have hnear : ofNat n = finite false (n * pow2 k) (-k) := by
      have hhigh : ¬ 310 < (Decimal.ofNat n).magnitude := by omega
      have hlow : ¬ (Decimal.ofNat n).magnitude < -330 := by omega
      have hcoeff : n * pow10 (0 : Int).toNat = n := Nat.mul_one n
      simp only [ofNat, ofDecimal, hhigh, hlow, if_false]
      simp only [Decimal.ofNat, h0, if_false, Int.le_refl, if_true, hcoeff, hratio]
    rw [hnear, value?_eq_some_iff]
    exact ⟨_, rfl, by rw [exact_shifted, Decimal.toRat_padded, Decimal.toRat_ofNat]⟩

/-- A natural number below `2^53` is read back as it was. -/
theorem toNat?_ofNat (h : n < 2 ^ 53) : (ofNat n).toNat? = some n :=
  toNat?_eq_some_iff.mpr (value?_ofNat h)

/-- Of the natural numbers only zero is less than one. -/
theorem lt_one_iff {x : Binary64} (h : x.toNat? = some n) : x.lt (ofNat 1) = true ↔ n = 0 := by
  rw [lt_iff (toNat?_eq_some_iff.mp h) (value?_ofNat (by decide)), Rat.natCast_lt_natCast]
  omega

/-! ## Natural numbers from `2^53` on -/

theorem div_le_halfEven (n d : Nat) : n / d ≤ halfEven n d := by
  unfold halfEven
  dsimp only
  split
  · exact Nat.le_refl _
  · exact Nat.le_succ _

/-- A mantissa that is long enough stays so when it is rounded or carried over. -/
theorem exists_of_assemble {k : Nat} (h : 2 ^ 52 ≤ n / pow2 k) :
    assemble false n 1 k = infinite false ∨
      ∃ m e : Nat, assemble false n 1 k = finite false m e ∧ 2 ^ 52 ≤ m ∧ k ≤ e := by
  have hm : 2 ^ 52 ≤ halfEven n (1 * pow2 (k : Int).toNat) := by
    rw [Nat.one_mul, Int.toNat_natCast]
    exact Nat.le_trans h (div_le_halfEven _ _)
  unfold assemble
  rw [if_pos (Int.natCast_nonneg k)]
  generalize halfEven n (1 * pow2 (k : Int).toNat) = m at hm ⊢
  dsimp only
  split <;> dsimp only <;> split
  · exact .inl rfl
  · exact .inr ⟨_, k + 1, rfl, Nat.le_of_eq (pow2_eq 52).symm, Nat.le_succ k⟩
  · exact .inl rfl
  · exact .inr ⟨m, k, rfl, hm, Nat.le_refl k⟩

theorem ofRatio_one_of_le (h : 2 ^ 53 ≤ n) :
    ∃ k : Nat, 1 ≤ k ∧ 2 ^ 52 ≤ n / pow2 k ∧ ofRatio false n 1 = assemble false n 1 k := by
  have h0 : n ≠ 0 := by omega
  have hlog : 53 ≤ n.log2 := (Nat.le_log2 h0).mpr h
  obtain ⟨k, hk⟩ : ∃ k, n.log2 = 52 + k := ⟨n.log2 - 52, by omega⟩
  have hlow : 2 ^ 52 * pow2 k ≤ n := by
    rw [pow2_eq, ← Nat.pow_add, ← hk]
    exact Nat.log2_self_le h0
  have hexp : (n.log2 : Int) - (Nat.log2 1 : Nat) - 52 = k := by
    rw [show Nat.log2 1 = 0 by decide]
    omega
  have hfits : ¬ n < pow2 52 * 1 * pow2 (k : Int).toNat := by
    rw [Nat.mul_one, Int.toNat_natCast, pow2_eq 52]
    exact Nat.not_lt.mpr hlow
  have hleast : ¬ (k : Int) < leastExponent := by
    unfold leastExponent
    omega
  refine ⟨k, by omega, (Nat.le_div_iff_mul_le ?_).mpr hlow, ?_⟩
  · rw [pow2_eq]
    exact Nat.two_pow_pos k
  · simp only [ofRatio, h0, if_false, hexp, Int.natCast_nonneg, if_true, hfits, hleast]

/-- A natural number from `2^53` on is rounded to one from `2^53` on, or to infinity. -/
theorem ofNat_of_le (h : 2 ^ 53 ≤ n) :
    ofNat n = infinite false ∨ ∃ q, (ofNat n).value? = some q ∧ 2 ^ 53 ≤ q := by
  have h0 : n ≠ 0 := by omega
  have hcoeff : n * pow10 (0 : Int).toNat = n := Nat.mul_one n
  have hpos := digitCount_pos n
  simp only [ofNat, ofDecimal, Decimal.magnitude, Decimal.digits]
  simp only [Decimal.ofNat, h0, if_false, Int.le_refl, if_true, hcoeff]
  split
  · exact .inl rfl
  rw [if_neg (by omega)]
  obtain ⟨k, hk, hlow, hratio⟩ := ofRatio_one_of_le h
  rw [hratio]
  refine (exists_of_assemble hlow).imp id ?_
  rintro ⟨m, e, hfinite, hm, he⟩
  refine ⟨(m * 2 ^ e : Nat), ?_, ?_⟩
  · rw [hfinite, value?, if_neg Bool.false_ne_true, zpow_natCast]
    push_cast
    rfl
  · have hpow : 2 ^ 52 * 2 ^ 1 ≤ m * 2 ^ e :=
      Nat.mul_le_mul hm (Nat.pow_le_pow_right (by decide) (Nat.le_trans hk he))
    exact_mod_cast hpow

/-- What is read back as a natural number below `2^53` was that number. -/
theorem eq_of_toNat?_ofNat {m : Nat} (h : (ofNat n).toNat? = some m) (hm : m < 2 ^ 53) : n = m := by
  by_cases hn : n < 2 ^ 53
  · exact Option.some.inj ((toNat?_ofNat hn).symm.trans h)
  · rcases ofNat_of_le (Nat.not_lt.mp hn) with hinf | ⟨q, hq, hle⟩
    · rw [hinf] at h
      cases h
    · rw [toNat?_eq_some_iff, hq, Option.some.injEq] at h
      have hlt : (m : Rat) < 2 ^ 53 := by exact_mod_cast hm
      exact absurd hle (not_le.mpr (h ▸ hlt))

/-- However large a natural number is, it is less than one only if it is zero. -/
theorem ofNat_lt_one_iff : (ofNat n).lt (ofNat 1) = true ↔ n = 0 := by
  by_cases hn : n < 2 ^ 53
  · exact lt_one_iff (toNat?_ofNat hn)
  · have h0 : n ≠ 0 := by omega
    refine iff_of_false ?_ h0
    rcases ofNat_of_le (Nat.not_lt.mp hn) with hinf | ⟨q, hq, hle⟩
    · obtain ⟨x, hx, -⟩ := value?_eq_some_iff.mp (value?_ofNat (n := 1) (by decide))
      rw [hinf, lt, hx]
      exact Bool.false_ne_true
    · rw [lt_iff hq (value?_ofNat (by decide)), not_lt]
      exact le_trans (by norm_num) hle

end Binary64

end Reckoner
