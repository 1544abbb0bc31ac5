/-
# How large exact results are

A rational number has the width `n` if it is a quotient of whole numbers of which
neither is above `10^n`.  Widths add up:

    a numeral                       the number of its characters
    the result of an operator       the widths of both operands, and one
    the result of a function        the widths of all arguments, and one for each

so the value of an expression is no wider than its text is long.  For numbers of `p`
digits this keeps the multiple that a floored remainder is taken from within the range
of exponents: both the dividend and the divisor would have to stand at the top of it,
and be wider than any text (`leading_floorMultiple_le`).
-/
import Reckoner.Precision
import Reckoner.Proofs.Operation.Exact

namespace Reckoner

/-- `HasWidth n q`: the number is a quotient of whole numbers, neither above `10^n`. -/
def HasWidth (n : Nat) (q : Rat) : Prop :=
  ∃ (a : Int) (b : Nat), 0 < b ∧ a.natAbs ≤ 10 ^ n ∧ b ≤ 10 ^ n ∧ q = a / b

namespace HasWidth

variable {m n : Nat} {q r : Rat}

theorem mono (h : HasWidth m q) (hmn : m ≤ n) : HasWidth n q := by
  have hle := Nat.pow_le_pow_right (show 0 < 10 by decide) hmn
  obtain ⟨a, b, hb, ha, hb', rfl⟩ := h
  exact ⟨a, b, hb, ha.trans hle, hb'.trans hle, rfl⟩

theorem neg (h : HasWidth n q) : HasWidth n (-q) := by
  obtain ⟨a, b, hb, ha, hb', rfl⟩ := h
  exact ⟨-a, b, hb, by rwa [Int.natAbs_neg], hb', by push_cast; ring⟩

/-- No number is larger than its width allows. -/
theorem abs_le (h : HasWidth n q) : |q| ≤ 10 ^ n := by
  obtain ⟨a, b, hb, ha, -, rfl⟩ := h
  have hone : (1 : Rat) ≤ b := by exact_mod_cast hb
  have habs : |(a : Rat)| ≤ 10 ^ n := by
    rw [← Int.cast_abs, Int.abs_eq_natAbs]
    exact_mod_cast ha
  rw [abs_div, Nat.abs_cast, div_le_iff₀ (by linarith)]
  have := mul_le_mul_of_nonneg_left hone (pow_nonneg (show (0 : Rat) ≤ 10 by norm_num) n)
  linarith

/-- An integer next to a number has room in one digit more. -/
theorem intCast {k : Int} (h : HasWidth n q) (hk : |(k : Rat)| ≤ |q| + 1) : HasWidth (n + 1) k := by
  have hone : 1 ≤ 10 ^ n := Nat.one_le_pow _ _ (by decide)
  refine ⟨k, 1, Nat.one_pos, ?_, by omega, by norm_num⟩
  have hle : ((k.natAbs : Nat) : Rat) ≤ ((10 ^ n + 1 : Nat) : Rat) := by
    rw [← Int.cast_natCast, Int.natCast_natAbs, Int.cast_abs]
    push_cast
    linarith [h.abs_le]
  have : k.natAbs ≤ 10 ^ n + 1 := by exact_mod_cast hle
  omega

/-- The product of numbers of `m` and of `n` digits has `m + n`. -/
theorem mul_le_pow {k l : Nat} (hk : k ≤ 10 ^ m) (hl : l ≤ 10 ^ n) : k * l ≤ 10 ^ (m + n) := by
  rw [Nat.pow_add]
  exact Nat.mul_le_mul hk hl

theorem mul (hq : HasWidth m q) (hr : HasWidth n r) : HasWidth (m + n) (q * r) := by
  obtain ⟨a, b, hb, ha, hb', rfl⟩ := hq
  obtain ⟨c, d, hd, hc, hd', rfl⟩ := hr
  refine ⟨a * c, b * d, Nat.mul_pos hb hd, ?_, mul_le_pow hb' hd', ?_⟩
  · rw [Int.natAbs_mul]
    exact mul_le_pow ha hc
  · push_cast
    field_simp

theorem inv (h : HasWidth n r) (hr : r ≠ 0) : HasWidth n r⁻¹ := by
  obtain ⟨c, d, hd, hc, hd', rfl⟩ := h
  have hne : c ≠ 0 := by
    rintro rfl
    exact hr (by norm_num)
  refine ⟨c.sign * d, c.natAbs, Int.natAbs_pos.mpr hne, ?_, hc, ?_⟩
  · rw [Int.natAbs_mul, Int.natAbs_sign_of_ne_zero hne, Int.natAbs_natCast, Nat.one_mul]
    exact hd'
  · rw [inv_div, Nat.cast_natAbs, Int.cast_abs]
    rcases hne.lt_or_gt with hneg | hpos
    · rw [Int.sign_eq_neg_one_of_neg hneg, abs_of_neg (Int.cast_lt_zero.mpr hneg)]
      push_cast
      rw [neg_one_mul, neg_div_neg_eq]
    · rw [Int.sign_eq_one_of_pos hpos, abs_of_pos (Int.cast_pos.mpr hpos)]
      push_cast
      rw [one_mul]

theorem div (hq : HasWidth m q) (hr : HasWidth n r) (hne : r ≠ 0) : HasWidth (m + n) (q / r) := by
  rw [div_eq_mul_inv]
  exact hq.mul (hr.inv hne)

/-- The numerators of a sum meet at the product of the denominators. -/
theorem natAbs_cross_le {a c : Int} {b d : Nat} (ha : a.natAbs ≤ 10 ^ m) (hb : b ≤ 10 ^ m)
    (hc : c.natAbs ≤ 10 ^ n) (hd : d ≤ 10 ^ n) : (a * d + c * b).natAbs ≤ 2 * 10 ^ (m + n) := by
  have hleft := mul_le_pow ha hd
  have hright := mul_le_pow hc hb
  have hsum := Int.natAbs_add_le (a * d) (c * b)
  rw [Int.natAbs_mul, Int.natAbs_mul, Int.natAbs_natCast, Int.natAbs_natCast] at hsum
  rw [Nat.add_comm n] at hright
  omega

theorem add (hq : HasWidth m q) (hr : HasWidth n r) : HasWidth (m + n + 1) (q + r) := by
  obtain ⟨a, b, hb, ha, hb', rfl⟩ := hq
  obtain ⟨c, d, hd, hc, hd', rfl⟩ := hr
  have hnum := natAbs_cross_le ha hb' hc hd'
  have hden := mul_le_pow hb' hd'
  refine ⟨a * d + c * b, b * d, Nat.mul_pos hb hd, ?_, ?_, ?_⟩
  · rw [Nat.pow_succ]
    omega
  · rw [Nat.pow_succ]
    omega
  · have hb0 : (b : Rat) ≠ 0 := Nat.cast_ne_zero.mpr hb.ne'
    have hd0 : (d : Rat) ≠ 0 := Nat.cast_ne_zero.mpr hd.ne'
    push_cast
    field_simp

/-- A remainder is a fraction with the denominators of both numbers, and less than the
divisor. -/
theorem floorMod (hq : HasWidth m q) (hr : HasWidth n r) (hne : r ≠ 0) :
    HasWidth (m + n) (floorMod q r) := by
  have hless := abs_floorMod_lt q hne
  obtain ⟨a, b, hb, ha, hb', rfl⟩ := hq
  obtain ⟨c, d, hd, hc, hd', rfl⟩ := hr
  have hb0 : (0 : Rat) < b := Nat.cast_pos.mpr hb
  have hd0 : (0 : Rat) < d := Nat.cast_pos.mpr hd
  have hvalue : Reckoner.floorMod (a / b) (c / d) =
      ((a * d - c * b * ((a / b : Rat) / (c / d)).floor : Int) : Rat) / ((b * d : Nat) : Rat) := by
    unfold Reckoner.floorMod
    push_cast
    field_simp
  refine ⟨_, b * d, Nat.mul_pos hb hd, ?_, mul_le_pow hb' hd', hvalue⟩
  rw [hvalue, abs_div, abs_div, Nat.abs_cast, Nat.abs_cast, div_lt_div_iff₀ (by positivity) hd0]
    at hless
  generalize (a * d - c * b * ((a / b : Rat) / (c / d)).floor : Int) = s at hless
  have hbound : s.natAbs * d < c.natAbs * (b * d) := by
    rw [← Int.cast_abs, ← Int.cast_abs, Int.abs_eq_natAbs, Int.abs_eq_natAbs] at hless
    exact_mod_cast hless
  have hle : s.natAbs ≤ c.natAbs * b := by
    rw [← Nat.mul_assoc] at hbound
    exact (Nat.lt_of_mul_lt_mul_right hbound).le
  rw [Nat.add_comm]
  exact hle.trans (mul_le_pow hc hb')

/-! ### Sums -/

/-- The terms of a sum have their denominators in common at the product of all. -/
theorem exists_sumOf {ns : List Nat} {qs : List Rat} (h : List.Forall₂ HasWidth ns qs) :
    ∃ (a : Int) (b : Nat), 0 < b ∧ a.natAbs ≤ qs.length * 10 ^ ns.sum ∧ b ≤ 10 ^ ns.sum ∧
      sumOf qs = a / b := by
  induction h with
  | nil => exact ⟨0, 1, Nat.one_pos, Nat.zero_le _, Nat.le_refl _, by norm_num [sumOf]⟩
  | @cons n q ns qs hq _ ih =>
      obtain ⟨c, d, hd, hc, hd', hsum⟩ := ih
      obtain ⟨a, b, hb, ha, hb', rfl⟩ := hq
      have hb0 : (b : Rat) ≠ 0 := Nat.cast_ne_zero.mpr hb.ne'
      have hd0 : (d : Rat) ≠ 0 := Nat.cast_ne_zero.mpr hd.ne'
      refine ⟨a * d + c * b, b * d, Nat.mul_pos hb hd, ?_, mul_le_pow hb' hd', ?_⟩
      · have hleft := Nat.mul_le_mul ha hd'
        have hright := Nat.mul_le_mul hc hb'
        have habs := Int.natAbs_add_le (a * d) (c * b)
        rw [Int.natAbs_mul, Int.natAbs_mul, Int.natAbs_natCast, Int.natAbs_natCast] at habs
        rw [List.length_cons, List.sum_cons, Nat.pow_add, Nat.succ_mul]
        rw [Nat.mul_assoc, Nat.mul_comm (10 ^ ns.sum)] at hright
        omega
      · rw [sumOf_cons, hsum]
        push_cast
        field_simp

theorem length_le_pow (k : Nat) : k ≤ 10 ^ k := (Nat.lt_pow_self (by decide)).le

variable {ns : List Nat} {qs : List Rat}

theorem sumOf (h : List.Forall₂ HasWidth ns qs) :
    HasWidth (ns.sum + qs.length) (sumOf qs) := by
  obtain ⟨a, b, hb, ha, hb', hsum⟩ := exists_sumOf h
  have hcount := Nat.mul_le_mul_right (10 ^ ns.sum) (length_le_pow qs.length)
  have hone : 1 ≤ 10 ^ qs.length := Nat.one_le_pow _ _ (by decide)
  have hmore := Nat.mul_le_mul_left (10 ^ ns.sum) hone
  refine ⟨a, b, hb, ?_, ?_, hsum⟩
  · rw [Nat.pow_add, Nat.mul_comm]
    omega
  · rw [Nat.pow_add]
    omega

theorem average (h : List.Forall₂ HasWidth ns qs) (hne : qs ≠ []) :
    HasWidth (ns.sum + qs.length) (Reckoner.sumOf qs / qs.length) := by
  obtain ⟨a, b, hb, ha, hb', hsum⟩ := exists_sumOf h
  have hpos := List.length_pos_iff.mpr hne
  have hcount := length_le_pow qs.length
  refine ⟨a, b * qs.length, Nat.mul_pos hb hpos, ?_, mul_le_pow hb' hcount, ?_⟩
  · rw [Nat.pow_add, Nat.mul_comm]
    exact ha.trans (Nat.mul_le_mul_right _ hcount)
  · rw [hsum, div_div]
    push_cast
    rfl

end HasWidth

/-! ## The primitives -/

theorem OperatorId.hasWidth {id : OperatorId} {m n : Nat} {q r s : Rat}
    (h : id.rational? q r = some s) (hq : HasWidth m q) (hr : HasWidth n r) :
    HasWidth (m + n + 1) s := by
  cases id with
  | negate | power | other => cases h
  | add =>
      cases h
      exact hq.add hr
  | subtract =>
      cases h
      exact sub_eq_add_neg q r ▸ hq.add hr.neg
  | multiply =>
      cases h
      exact (hq.mul hr).mono (Nat.le_succ _)
  | divide =>
      simp only [rational?, Option.ite_none_left_eq_some, Option.some.injEq] at h
      obtain ⟨hne, rfl⟩ := h
      exact (hq.div hr hne).mono (Nat.le_succ _)
  | modulo =>
      simp only [rational?, Option.ite_none_left_eq_some, Option.some.injEq] at h
      obtain ⟨hne, rfl⟩ := h
      exact (hq.floorMod hr hne).mono (Nat.le_succ _)

/-- A number that is picked from others is as wide as one of them. -/
theorem HasWidth.of_mem {ns : List Nat} {qs : List Rat} (h : List.Forall₂ HasWidth ns qs) {q : Rat}
    (hq : q ∈ qs) : HasWidth ns.sum q := by
  induction h with
  | nil => cases hq
  | @cons n _ ns _ hn _ ih =>
      rw [List.sum_cons]
      rcases List.mem_cons.mp hq with rfl | hq
      · exact hn.mono (Nat.le_add_right _ _)
      · exact (ih hq).mono (Nat.le_add_left _ _)

theorem abs_floor_le (q : Rat) : |(q.floor : Rat)| ≤ |q| + 1 := by
  obtain ⟨hle, hlt⟩ := floor_bounds q
  rw [abs_le]
  constructor
  · linarith [neg_abs_le q]
  · linarith [le_abs_self q]

theorem abs_ceil_le (q : Rat) : |(q.ceil : Rat)| ≤ |q| + 1 := by
  rw [Rat.ceil_eq_neg_floor_neg, Rat.intCast_neg, abs_neg, ← abs_neg q]
  exact abs_floor_le (-q)

theorem FunctionId.hasWidth {id : FunctionId} {ns : List Nat} {qs : List Rat} {q : Rat}
    (h : id.rational? qs = some q) (hqs : List.Forall₂ HasWidth ns qs) :
    HasWidth (ns.sum + qs.length) q := by
  have hinteger : ∀ {r : Rat} {k : Int}, List.Forall₂ HasWidth ns [r] →
      |(k : Rat)| ≤ |r| + 1 → HasWidth (ns.sum + 1) k := by
    intro r k hr hk
    exact (HasWidth.of_mem hr (List.mem_singleton_self r)).intCast hk
  cases id with
  | sin | cos | tan | asin | acos | atan | sinh | cosh | tanh | ln | log | random | other => cases h
  | abs =>
      rcases qs with _ | ⟨r, _ | _⟩ <;> cases h
      have hr := HasWidth.of_mem hqs (List.mem_singleton_self r)
      refine HasWidth.mono ?_ (Nat.le_succ ns.sum)
      unfold Rat.abs
      split
      · exact hr
      · exact hr.neg
  | ceil =>
      rcases qs with _ | ⟨r, _ | _⟩ <;> cases h
      exact hinteger hqs (abs_ceil_le r)
  | floor =>
      rcases qs with _ | ⟨r, _ | _⟩ <;> cases h
      exact hinteger hqs (abs_floor_le r)
  | round =>
      rcases qs with _ | ⟨r, _ | _⟩ <;> cases h
      unfold awayFromZero
      split
      · exact hinteger hqs (abs_ceil_le r)
      · exact hinteger hqs (abs_floor_le r)
  | min | max =>
      exact (HasWidth.of_mem hqs (List.mem_of_find?_eq_some h)).mono (Nat.le_add_right _ _)
  | sum =>
      rcases qs with _ | ⟨r, rs⟩ <;> cases h
      exact HasWidth.sumOf hqs
  | average =>
      rcases qs with _ | ⟨r, rs⟩ <;> cases h
      exact HasWidth.average hqs (List.cons_ne_nil r rs)

/-! ## The multiples of remainders -/

/-- What a number of `p` digits lacks of the power of ten above it is at least a unit of
its last digit. -/
theorem Decimal.ten_zpow_le_room {p : Nat} {x : Decimal} (hp : 0 < p) (hx : x.significant ≤ p)
    (hc : x.coeff ≠ 0) : 10 ^ (x.magnitude + 1 - p) ≤ 10 ^ (x.magnitude + 1) - x.abs.toRat := by
  obtain ⟨m, k, hm, hcoeff⟩ := (significant_le_iff hp).mp hx
  have hm0 : m ≠ 0 := by
    rintro rfl
    exact hc (hcoeff.trans (Nat.zero_mul _))
  have hdigits : x.digits = digitCount m + k := by
    rw [digits, hcoeff, digitCount_mul_pow10 hm0]
  have hcount : digitCount m ≤ p := (digitCount_le_iff hp).mpr hm
  -- the number is `m` units, fewer than make the power of ten above it
  have hscale := ten_zpow_eq (show x.exp ≤ x.exp + k by omega)
  have habove := ten_zpow_eq (show x.exp + k ≤ x.magnitude + 1 by unfold magnitude; omega)
  have hlow := ten_zpow_le (show x.magnitude + 1 - p ≤ x.exp + k by unfold magnitude; omega)
  have hvalue : x.abs.toRat = m * 10 ^ (x.exp + k) := by
    rw [hscale, show (x.exp + k - x.exp).toNat = k by omega]
    simp only [toRat, abs, Bool.false_eq_true, if_false, hcoeff]
    push_cast
    ring
  rw [show (x.magnitude + 1 - (x.exp + k)).toNat = digitCount m by unfold magnitude; omega]
    at habove
  have hless : (m : Rat) + 1 ≤ (pow10 (digitCount m) : Nat) := by
    exact_mod_cast lt_pow10_digitCount m
  have := mul_le_mul_of_nonneg_right hless (ten_zpow_pos (x.exp + k)).le
  rw [hvalue, habove]
  linarith

theorem exponent_le_of_width {n : Nat} {q : Rat} (h : HasWidth n q) {e : Int}
    (he : 10 ^ e ≤ |q|) : e ≤ n := by
  have hle := he.trans h.abs_le
  rwa [← zpow_natCast, zpow_le_zpow_iff_right₀ (by norm_num)] at hle

/-- A multiple above the range is one of a divisor next to the top of the range, taken
off a dividend at the top: both are wide. -/
theorem leading_floorMultiple_le (p : Precision) {m n : Nat} {q r : Rat} (hne : r ≠ 0)
    (hq : Representable p.digits q) (hr : Representable p.digits r) (hqw : HasWidth m q)
    (hrw : HasWidth n r) (hwidth : m + n < 2 ^ 53) :
    leading (floorMultiple q r) ≤ Number.exponentLimit := by
  obtain ⟨x, hx, hxr, rfl⟩ := hq
  obtain ⟨y, hy, hyr, rfl⟩ := hr
  refine not_lt.mp fun hover => ?_
  obtain ⟨hmag, -, hle, -, hbeyond⟩ := (Number.multipleOverflows_eq_true x y).mp
    ((Number.multipleOverflows_iff hxr hyr hne).mpr hover)
  have hyc : y.coeff ≠ 0 := mt Decimal.toRat_of_zero hne
  have hxc : x.coeff ≠ 0 := by
    intro h0
    have := Decimal.toRat_abs_pos hyc
    rw [Decimal.toRat_of_zero (x := x.abs) h0] at hle
    linarith
  obtain ⟨-, -, hlow, -⟩ := Decimal.magnitudeMod_spec x hyc
  have hroom := Decimal.ten_zpow_le_room p.positive hx hxc
  have htop := Decimal.le_toRat_abs hxc
  rw [hmag] at hroom htop
  have hdividend := exponent_le_of_width hqw (by rwa [Decimal.abs_toRat])
  have hdivisor : Number.exponentLimit + 1 - p.digits ≤ n :=
    exponent_le_of_width hrw (by rw [Decimal.abs_toRat]; linarith)
  have hdigits := p.within
  unfold Number.exponentLimit at hdividend hdivisor
  omega

end Reckoner
