/-
# The sign of a zero

A zero keeps a sign, and `0` and `-0` are printed alike.  `Number.unsigned`
takes the sign away from a zero and leaves every other number as it is, so two
numbers are numerically equal where they are the same unsigned.

No primitive looks at the sign of a zero, with one exception: a power whose
base is zero.

    base    exponent              looks at the sign of
    zero    zero                  the exponent: a minus counts as a negative power
    zero    a fraction above      the base: a minus counts as a negative base
    zero    any other             nothing
    other   zero                  nothing

`OperatorId.unsigned_applyTwo` and `FunctionId.unsigned_apply` say so of every
primitive but `random`; `OperatorId.power_looks_at_sign` says that there is no
pair of finite numbers for which the exception is made without need.
-/
import Reckoner.Operation
import Reckoner.Proofs.Decimal.Rounding

namespace Reckoner

/-- The number, its sign taken away if it is a zero. -/
def Number.unsigned (x : Number) : Number := if x.isZero then zero else x

/-- The outcome, the sign taken away from a result that is zero. -/
def Outcome.unsigned (outcome : Outcome) : Outcome := outcome.map Number.unsigned

/-- Whether the power of `a` to `b` hangs on the sign of one that is a zero. -/
def Number.signMatters (a b : Number) : Bool :=
  a.isZero && (b.isZero || (!b.isNegative && !b.isInteger))

/-- Whether an operator looks at the sign of a zero among its operands. -/
def OperatorId.looksAtSign : OperatorId → List Number → Bool
  | power, a :: b :: _ => a.signMatters b
  | _, _ => false

namespace Number

theorem isZero_finite {x : Decimal} : (finite x).isZero = true ↔ x.coeff = 0 := beq_iff_eq

theorem exists_of_isZero {a : Number} (h : a.isZero = true) : ∃ x, a = finite x ∧ x.coeff = 0 := by
  cases a with
  | finite x => exact ⟨x, rfl, isZero_finite.mp h⟩
  | infinite | nan => cases h

theorem unsigned_of_zero {x : Decimal} (h : x.coeff = 0) : (finite x).unsigned = zero :=
  if_pos (isZero_finite.mpr h)

/-- Taking the sign away leaves a number finite, and makes none finite. -/
theorem exists_unsigned_finite (x : Decimal) : ∃ y, (finite x).unsigned = finite y := by
  unfold unsigned
  split
  · exact ⟨Decimal.zero, rfl⟩
  · exact ⟨x, rfl⟩

theorem exists_of_unsigned_finite {a : Number} {y : Decimal} (h : a.unsigned = finite y) :
    ∃ x, a = finite x := by
  cases a with
  | finite x => exact ⟨x, rfl⟩
  | infinite | nan => cases h

theorem unsigned_eq_iff {a b : Number} :
    a.unsigned = b.unsigned ↔ a = b ∨ (a.isZero = true ∧ b.isZero = true) := by
  unfold unsigned
  constructor
  · intro h
    split at h
    · next ha =>
        split at h
        · next hb => exact Or.inr ⟨ha, hb⟩
        · next hb =>
            rw [← h] at hb
            exact absurd rfl hb
    · next ha =>
        split at h
        · rw [h] at ha
          exact absurd rfl ha
        · exact Or.inl h
  · rintro (rfl | ⟨ha, hb⟩)
    · rfl
    · rw [if_pos ha, if_pos hb]

/-- What is the same at all zeros does not look at their sign. -/
theorem eq_of_unsigned {α : Type} {f : Number → α} (r : α)
    (hf : ∀ x : Decimal, x.coeff = 0 → f (finite x) = r) {a b : Number}
    (h : a.unsigned = b.unsigned) : f a = f b := by
  rcases unsigned_eq_iff.mp h with rfl | ⟨ha, hb⟩
  · rfl
  · obtain ⟨x, rfl, hx⟩ := exists_of_isZero ha
    obtain ⟨y, rfl, hy⟩ := exists_of_isZero hb
    rw [hf x hx, hf y hy]

/-- As `eq_of_unsigned`, for both arguments. -/
theorem eq_of_unsigned₂ {α : Type} {f : Number → Number → α} (r s : Number → α)
    (hl : ∀ x : Decimal, x.coeff = 0 → ∀ c, f (finite x) c = r c)
    (hr : ∀ x : Decimal, x.coeff = 0 → ∀ c, f c (finite x) = s c) {a b c d : Number}
    (h : a.unsigned = b.unsigned) (h' : c.unsigned = d.unsigned) : f a c = f b d := by
  calc f a c
      = f b c := eq_of_unsigned (f := fun a => f a c) (r c) (fun x hx => hl x hx c) h
    _ = f b d := eq_of_unsigned (s b) (fun x hx => hr x hx b) h'

end Number

/-! ## Decimals that are zero -/

namespace Decimal

variable {x : Decimal} (h : x.coeff = 0)

include h

theorem coeff_toIntegral_of_zero (outward : Bool) : (x.toIntegral outward).coeff = 0 := by
  unfold toIntegral
  dsimp only
  split
  · exact h
  · split
    · simp only [h, ne_eq, not_true_eq_false, decide_false, Bool.and_false, Bool.false_eq_true,
        if_false]
    · simp only [h, Nat.zero_div, Nat.zero_mod, ne_eq, not_true_eq_false, decide_false,
        Bool.and_false, Bool.false_eq_true, if_false]

theorem addRounded_zero_left (p : Nat) {y : Decimal} (hy : y.coeff ≠ 0) :
    x.addRounded p y = y.round p := by
  simp only [addRounded, h, hy, decide_true, decide_false, Bool.and_false, Bool.false_eq_true,
    if_false, if_true]

theorem addRounded_zero_right (p : Nat) {y : Decimal} (hy : y.coeff ≠ 0) :
    y.addRounded p x = y.round p := by
  simp only [addRounded, h, hy, decide_true, decide_false, Bool.false_and, Bool.false_eq_true,
    if_false, if_true]

theorem coeff_addRounded_of_zeros (p : Nat) {y : Decimal} (hy : y.coeff = 0) :
    (x.addRounded p y).coeff = 0 := by
  simp only [addRounded, h, hy, decide_true, Bool.and_self, if_true]

theorem coeff_mul_of_zero_left (y : Decimal) : (x.mul y).coeff = 0 := by
  rw [mul, h, Nat.zero_mul]

theorem coeff_mul_of_zero_right (y : Decimal) : (y.mul x).coeff = 0 := by
  rw [mul, h, Nat.mul_zero]

theorem coeff_divRounded_of_zero (p : Nat) (y : Decimal) : (x.divRounded p y).coeff = 0 := by
  simp only [divRounded, ofRatio, h, if_true]

theorem coeff_modRounded_of_zero (p : Nat) (y : Decimal) : (x.modRounded p y).coeff = 0 := by
  rw [modRounded, if_pos h, h]

end Decimal

/-! ## Arithmetic -/

namespace Number

variable {p : Nat} {a b c d : Number}

theorem unsigned_fit_of_zero {x : Decimal} (h : x.coeff = 0) : (fit x).unsigned = zero := by
  rw [fit, if_pos h, unsigned_of_zero (Decimal.coeff_canonical_eq_zero.mpr h)]

theorem isZero_congr (h : a.unsigned = b.unsigned) : a.isZero = b.isZero :=
  eq_of_unsigned true (fun _ hx => isZero_finite.mpr hx) h

theorem neg_congr (h : a.unsigned = b.unsigned) : a.neg.unsigned = b.neg.unsigned :=
  eq_of_unsigned (f := fun a => a.neg.unsigned) zero (fun _ hx => unsigned_of_zero hx) h

/-- Adding to a zero is rounding. -/
theorem unsigned_add_zero_left {x : Decimal} (hx : x.coeff = 0) (b : Number) :
    ((finite x).add p b).unsigned = (b.round p).unsigned := by
  cases b with
  | finite y =>
      simp only [add, round]
      by_cases hy : y.coeff = 0
      · rw [unsigned_fit_of_zero (Decimal.coeff_addRounded_of_zeros hx p hy),
          unsigned_fit_of_zero (Decimal.coeff_round_of_zero hy p)]
      · rw [Decimal.addRounded_zero_left hx p hy]
  | infinite | nan => rfl

theorem unsigned_add_zero_right {x : Decimal} (hx : x.coeff = 0) (b : Number) :
    (b.add p (finite x)).unsigned = (b.round p).unsigned := by
  cases b with
  | finite y =>
      simp only [add, round]
      by_cases hy : y.coeff = 0
      · rw [unsigned_fit_of_zero (Decimal.coeff_addRounded_of_zeros hy p hx),
          unsigned_fit_of_zero (Decimal.coeff_round_of_zero hy p)]
      · rw [Decimal.addRounded_zero_right hx p hy]
  | infinite | nan => rfl

theorem add_congr (h : a.unsigned = b.unsigned) (h' : c.unsigned = d.unsigned) :
    (a.add p c).unsigned = (b.add p d).unsigned :=
  eq_of_unsigned₂ (f := fun a c => (a.add p c).unsigned) _ _
    (fun _ hx => unsigned_add_zero_left hx) (fun _ hx => unsigned_add_zero_right hx) h h'

theorem sub_congr (h : a.unsigned = b.unsigned) (h' : c.unsigned = d.unsigned) :
    (a.sub p c).unsigned = (b.sub p d).unsigned :=
  add_congr h (neg_congr h')

theorem unsigned_mul_zero_left {x : Decimal} (hx : x.coeff = 0) (b : Number) :
    ((finite x).mul p b).unsigned = if b.isFinite then zero else nan := by
  cases b with
  | finite y =>
      have hmul := Decimal.coeff_mul_of_zero_left hx y
      exact unsigned_fit_of_zero (Decimal.coeff_round_of_zero hmul p)
  | infinite =>
      simp only [mul, isZero_finite.mpr hx, Bool.true_or, if_true]
      rfl
  | nan => rfl

theorem unsigned_mul_zero_right {x : Decimal} (hx : x.coeff = 0) (b : Number) :
    (b.mul p (finite x)).unsigned = if b.isFinite then zero else nan := by
  cases b with
  | finite y =>
      have hmul := Decimal.coeff_mul_of_zero_right hx y
      exact unsigned_fit_of_zero (Decimal.coeff_round_of_zero hmul p)
  | infinite =>
      simp only [mul, isZero_finite.mpr hx, Bool.or_true, if_true]
      rfl
  | nan => rfl

theorem mul_congr (h : a.unsigned = b.unsigned) (h' : c.unsigned = d.unsigned) :
    (a.mul p c).unsigned = (b.mul p d).unsigned :=
  eq_of_unsigned₂ (f := fun a c => (a.mul p c).unsigned) _ _
    (fun _ hx => unsigned_mul_zero_left hx) (fun _ hx => unsigned_mul_zero_right hx) h h'

/-- A quotient by what is not zero; a quotient by zero does look at the sign. -/
theorem div_congr (h : a.unsigned = b.unsigned) (hc : c.isZero = false) :
    (a.div p c).unsigned = (b.div p c).unsigned := by
  refine eq_of_unsigned (f := fun a => (a.div p c).unsigned) (if c = nan then nan else zero)
    (fun x hx => ?_) h
  cases c with
  | finite y =>
      have hy : y.coeff ≠ 0 := mt isZero_finite.mpr (by rw [hc]; decide)
      simp only [div, hy, if_false, reduceCtorEq]
      exact unsigned_fit_of_zero (Decimal.coeff_divRounded_of_zero hx p y)
  | infinite | nan => rfl

/-- The multiple that is taken off a zero is a zero. -/
theorem multipleOverflows_of_zero {x y : Decimal} (hx : x.coeff = 0) (hy : y.coeff ≠ 0) :
    multipleOverflows x y = false := by
  have hlt : x.abs.lt y.abs = true := by
    simp only [Decimal.lt, Decimal.abs, hx, hy, ne_eq, not_false_eq_true, decide_true, if_true,
      Bool.not_false, Bool.and_self]
  simp only [multipleOverflows, hlt, Bool.not_true, Bool.and_false, Bool.false_and]

theorem mod_congr (h : a.unsigned = b.unsigned) (hc : c.isZero = false) :
    (a.mod p c).unsigned = (b.mod p c).unsigned := by
  refine eq_of_unsigned (f := fun a => (a.mod p c).unsigned) (if c = nan then nan else zero)
    (fun x hx => ?_) h
  cases c with
  | finite y =>
      have hy : y.coeff ≠ 0 := mt isZero_finite.mpr (by rw [hc]; decide)
      simp only [mod, hy, multipleOverflows_of_zero hx hy, Bool.false_eq_true, if_false,
        reduceCtorEq]
      exact unsigned_fit_of_zero (Decimal.coeff_modRounded_of_zero hx p y)
  | infinite => exact unsigned_fit_of_zero (Decimal.coeff_round_of_zero hx p)
  | nan => rfl

theorem lt_congr (h : a.unsigned = b.unsigned) (h' : c.unsigned = d.unsigned) :
    a.lt c = b.lt d := by
  refine eq_of_unsigned₂ (f := lt) (fun c => zero.lt c) (fun c => c.lt zero) ?_ ?_ h h'
  · intro x hx c
    cases c with
    | finite y => simp only [lt, Decimal.lt, zero, Decimal.zero, hx, if_true]
    | infinite | nan => rfl
  · intro x hx c
    cases c with
    | finite y =>
        simp only [lt, Decimal.lt, zero, Decimal.zero, hx, if_true, ne_eq, not_true_eq_false,
          decide_false, Bool.false_and]
    | infinite | nan => rfl

theorem isZero_ofNat {n : Nat} (hn : n ≠ 0) : (ofNat n).isZero = false := by
  have hx : (Decimal.ofNat n).coeff ≠ 0 := hn
  have hdigits : 0 < (Decimal.ofNat n).digits := digitCount_pos n
  have hm : ¬ (Decimal.ofNat n).magnitude < -exponentLimit := by
    simp only [Decimal.magnitude, Decimal.ofNat, exponentLimit] at hdigits ⊢
    omega
  rw [ofNat, fit, if_neg hx, if_neg hm]
  split
  · rfl
  · exact beq_eq_false_iff_ne.mpr (mt Decimal.coeff_canonical_eq_zero.mp hn)

end Number

/-! ## Outcomes -/

namespace Outcome

theorem unsigned_ofFinite (doing : String) (x : Number) :
    (ofFinite doing x).unsigned = ofFinite doing x.unsigned := by
  cases x with
  | finite x =>
      obtain ⟨y, hy⟩ := Number.exists_unsigned_finite x
      rw [hy]
      exact congrArg Except.ok hy
  | infinite | nan => rfl

theorem unsigned_ofLimited (doing : String) (x : Option Number) :
    (ofLimited doing x).unsigned = ofLimited doing (x.map Number.unsigned) := by
  cases x with
  | none => rfl
  | some x => exact unsigned_ofFinite doing x

theorem ofFinite_congr {doing : String} {a b : Number} (h : a.unsigned = b.unsigned) :
    (ofFinite doing a).unsigned = (ofFinite doing b).unsigned := by
  rw [unsigned_ofFinite, unsigned_ofFinite, h]

theorem ok_congr {a b : Number} (h : a.unsigned = b.unsigned) :
    Outcome.unsigned (.ok a) = Outcome.unsigned (.ok b) :=
  congrArg Except.ok h

end Outcome

/-! ## Powers -/

namespace Binary64

theorem ofRatio_sign (s : Bool) (n d : Nat) :
    (∃ m e, ofRatio s n d = finite s m e) ∨ ofRatio s n d = infinite s := by
  unfold ofRatio assemble
  split
  · exact Or.inl ⟨_, _, rfl⟩
  · dsimp only
    generalize (if _ = pow2 53 then _ else _ : Nat × Int) = r
    split
    · exact Or.inr rfl
    · exact Or.inl ⟨_, _, rfl⟩

/-- The nearest binary64 number has the sign of the decimal. -/
theorem ofDecimal_sign (x : Decimal) :
    (∃ m e, ofDecimal x = finite x.negative m e) ∨ ofDecimal x = infinite x.negative := by
  unfold ofDecimal
  split
  · exact Or.inl ⟨_, _, rfl⟩
  · split
    · exact Or.inr rfl
    · split
      · exact Or.inl ⟨_, _, rfl⟩
      · split
        · exact ofRatio_sign _ _ _
        · exact ofRatio_sign _ _ _

theorem ofDecimal_of_zero {x : Decimal} (h : x.coeff = 0) :
    ofDecimal x = finite x.negative 0 leastExponent := by
  rw [ofDecimal, if_pos h]

end Binary64

namespace Number

variable {p : Nat} {a b c d : Number}

theorem isInteger_of_isZero (h : a.isZero = true) : a.isInteger = true := by
  obtain ⟨x, rfl, hx⟩ := exists_of_isZero h
  simp only [isInteger, Decimal.isInteger, hx, beq_self_eq_true, Bool.true_or]

theorem isZero_neg (h : a.isZero = true) : a.neg.isZero = true := by
  obtain ⟨x, rfl, hx⟩ := exists_of_isZero h
  exact isZero_finite.mpr hx

theorem isNegative_neg (h : a.isZero = true) : a.neg.isNegative = !a.isNegative := by
  obtain ⟨x, rfl, -⟩ := exists_of_isZero h
  rfl

/-- Anything to the power zero is one. -/
theorem pow?_zero (a : Number) {y : Decimal} (hy : y.coeff = 0) :
    a.pow? p (finite y) = some one := by
  have hspecial : ∀ x : Binary64, specialPower x (finite y).toBinary64 = one := by
    intro x
    rw [toBinary64, Binary64.ofDecimal_of_zero hy]
    cases x <;> rfl
  cases a with
  | finite x => simp only [pow?, hy, decide_true, Bool.or_true, if_true, hspecial]
  | infinite | nan => simp only [pow?, hspecial]

/-- Zero to a power above zero is one number, whatever its sign. -/
theorem exists_specialPower_zero {y : Decimal} (hy : y.negative = false) :
    ∃ r : Decimal, ∀ s, (specialPower (.finite s 0 Binary64.leastExponent)
      (.ofDecimal y)).unsigned = finite r := by
  have hsign := Binary64.ofDecimal_sign y
  rw [hy] at hsign
  rcases hsign with ⟨m, e, h⟩ | h
  · rw [h]
    cases m with
    | zero => exact ⟨Decimal.one, fun s => rfl⟩
    | succ m => exact ⟨Decimal.zero, fun s => rfl⟩
  · have heq : (Binary64.finite false 0 Binary64.leastExponent).eq (Binary64.ofNat 1) = false := by
      decide +kernel
    have hlt : (Binary64.ofNat 1).lt (Binary64.finite false 0 Binary64.leastExponent) = false := by
      decide +kernel
    refine ⟨Decimal.zero, fun s => ?_⟩
    rw [h]
    unfold specialPower
    dsimp only
    rw [heq, hlt]
    rfl

theorem pow?_of_zero {x y : Decimal} (hx : x.coeff = 0) :
    (finite x).pow? p (finite y) =
      some (specialPower (.finite x.negative 0 Binary64.leastExponent) (.ofDecimal y)) := by
  simp only [pow?, hx, decide_true, Bool.true_or, if_true, toBinary64,
    Binary64.ofDecimal_of_zero hx]

end Number

namespace OperatorId

variable {p : Nat} {a b c d : Number}

/-- A power to zero is one, unless it is one of zero and the exponent has a sign. -/
theorem power_to_zero (hb : b.isZero = true) :
    power.applyTwo p a b =
      if a.isZero && b.isNegative then .error .zeroToNegative else .ok Number.one := by
  have hinteger := Number.isInteger_of_isZero hb
  obtain ⟨y, rfl, hy⟩ := Number.exists_of_isZero hb
  simp only [applyTwo, hinteger, Bool.not_true, Bool.and_false, Bool.false_eq_true, if_false,
    Number.pow?_zero a hy]
  rfl

/-- Where the base is a zero and the exponent a fraction above zero, a power is
refused for the sign of the base. -/
theorem power_of_fraction {y : Decimal} (ha : a.isZero = true) (hy : y.negative = false)
    (hinteger : y.isInteger = false) :
    ∃ x, power.applyTwo p a (.finite y) =
      if a.isNegative then .error .fractionOfNegative else .ok x := by
  obtain ⟨x, rfl, hx⟩ := Number.exists_of_isZero ha
  obtain ⟨r, hr⟩ := Number.exists_specialPower_zero hy
  obtain ⟨z, hz⟩ := Number.exists_of_unsigned_finite (hr x.negative)
  refine ⟨.finite z, ?_⟩
  simp only [applyTwo, Number.isNegative, Number.isInteger, hy, hinteger, Bool.and_false,
    Bool.false_eq_true, if_false, Bool.not_false, Bool.and_true, Number.pow?_of_zero hx, hz]
  rfl

/-- Wherever a power of finite numbers looks at a sign, the other sign decides
otherwise whether there is a result. -/
theorem power_looks_at_sign {y : Decimal} (h : a.signMatters (.finite y) = true) :
    ∃ c d : Number, c.unsigned = a.unsigned ∧ d.unsigned = (Number.finite y).unsigned ∧
      (power.applyTwo p c d).toOption.isSome =
        !(power.applyTwo p a (.finite y)).toOption.isSome := by
  simp only [Number.signMatters, Bool.and_eq_true, Bool.or_eq_true, Bool.not_eq_true'] at h
  obtain ⟨ha, hy | ⟨hneg, hinteger⟩⟩ := h
  · have hy' := Number.isZero_neg hy
    refine ⟨a, (Number.finite y).neg, rfl, Number.unsigned_eq_iff.mpr (Or.inr ⟨hy', hy⟩), ?_⟩
    rw [power_to_zero hy', power_to_zero hy, Number.isNegative_neg hy, ha]
    cases (Number.finite y).isNegative <;> rfl
  · have ha' := Number.isZero_neg ha
    obtain ⟨z, hz⟩ := power_of_fraction (p := p) ha hneg hinteger
    obtain ⟨z', hz'⟩ := power_of_fraction (p := p) ha' hneg hinteger
    refine ⟨a.neg, .finite y, Number.unsigned_eq_iff.mpr (Or.inr ⟨ha', ha⟩), rfl, ?_⟩
    rw [hz, hz', Number.isNegative_neg ha]
    cases a.isNegative <;> rfl

/-- A zero to any other power comes to the same for both zeros. -/
theorem exists_power_of_zero {b : Number} (hb : b.isZero = false)
    (h : b.isNegative = true ∨ b.isInteger = true) :
    ∃ r : Outcome, ∀ x : Decimal, x.coeff = 0 →
      (power.applyTwo p (.finite x) b).unsigned = r := by
  cases hneg : b.isNegative with
  | true =>
      refine ⟨.error .zeroToNegative, fun x hx => ?_⟩
      simp only [applyTwo, Number.isZero_finite.mpr hx, hneg, Bool.and_self, if_true]
      rfl
  | false =>
      have hinteger : b.isInteger = true := h.resolve_left (by rw [hneg]; decide)
      cases b with
      | finite y =>
          obtain ⟨r, hr⟩ := Number.exists_specialPower_zero hneg
          refine ⟨.ok (.finite r), fun x hx => ?_⟩
          simp only [applyTwo, hneg, hinteger, Bool.and_false, Bool.not_true, Bool.false_eq_true,
            if_false, Number.pow?_of_zero hx, Outcome.unsigned_ofLimited, Option.map_some, hr]
          rfl
      | infinite | nan => cases hinteger

theorem power_congr (h : a.unsigned = b.unsigned) (h' : c.unsigned = d.unsigned)
    (hs : a.signMatters c = false) :
    (power.applyTwo p a c).unsigned = (power.applyTwo p b d).unsigned := by
  rcases Number.unsigned_eq_iff.mp h' with rfl | ⟨hc, hd⟩
  · rcases Number.unsigned_eq_iff.mp h with rfl | ⟨ha, -⟩
    · rfl
    · simp only [Number.signMatters, ha, Bool.true_and, Bool.or_eq_false_iff,
        Bool.and_eq_false_iff, Bool.not_eq_false'] at hs
      obtain ⟨r, hr⟩ := exists_power_of_zero (p := p) hs.1 hs.2
      exact Number.eq_of_unsigned (f := fun a => (power.applyTwo p a c).unsigned) r hr h
  · -- a base that is not zero to the power zero
    have ha : a.isZero = false := by
      simpa only [Number.signMatters, hc, Bool.true_or, Bool.and_true] using hs
    have hb : b.isZero = false := (Number.isZero_congr h).symm.trans ha
    rw [power_to_zero hc, power_to_zero hd, ha, hb]
    rfl

/-- What is refused for a divisor that is zero. -/
theorem unsigned_checked {f : Number → Number → Number} {doing : String} {reason : Reason}
    (hf : c.isZero = false → (f a c).unsigned = (f b c).unsigned)
    (h' : c.unsigned = d.unsigned) :
    Outcome.unsigned (if c.isZero then .error reason else Outcome.ofFinite doing (f a c)) =
      Outcome.unsigned (if d.isZero then .error reason else Outcome.ofFinite doing (f b d)) := by
  rcases Number.unsigned_eq_iff.mp h' with rfl | ⟨hc, hd⟩
  · split
    · rfl
    · next hc => exact Outcome.ofFinite_congr (hf (Bool.eq_false_iff.mpr hc))
  · rw [if_pos hc, if_pos hd]

/-- No operator but the power looks at the sign of a zero. -/
theorem unsigned_applyTwo (id : OperatorId) (h : a.unsigned = b.unsigned)
    (h' : c.unsigned = d.unsigned) (hs : id.looksAtSign [a, c] = false) :
    (id.applyTwo p a c).unsigned = (id.applyTwo p b d).unsigned := by
  cases id with
  | negate => exact Outcome.ok_congr (Number.neg_congr h)
  | add => exact Outcome.ofFinite_congr (Number.add_congr h h')
  | subtract => exact Outcome.ofFinite_congr (Number.sub_congr h h')
  | multiply => exact Outcome.ofFinite_congr (Number.mul_congr h h')
  | divide => exact unsigned_checked (Number.div_congr h) h'
  | modulo => exact unsigned_checked (Number.mod_congr h) h'
  | power => exact power_congr h h' hs
  | other => rfl

theorem unsigned_applyOne (id : OperatorId) (h : a.unsigned = b.unsigned) :
    (id.applyOne a).unsigned = (id.applyOne b).unsigned := by
  cases id with
  | negate => exact Outcome.ok_congr (Number.neg_congr h)
  | _ => rfl

end OperatorId

/-- What an operator comes to hangs on the sign of no zero, unless it looks at
one. -/
theorem Operator.unsigned_apply (p : Nat) (op : Operator) {xs ys : List Number}
    (h : xs.map Number.unsigned = ys.map Number.unsigned) (hs : op.id.looksAtSign xs = false) :
    (op.apply p xs).unsigned = (op.apply p ys).unsigned := by
  obtain ⟨id, symbol, arity, associativity, precedence⟩ := op
  cases xs with
  | nil =>
      cases List.map_eq_nil_iff.mp h.symm
      rfl
  | cons a xs =>
      obtain ⟨b, ys, rfl, hb, h⟩ := List.map_eq_cons_iff.mp h.symm
      cases xs with
      | nil =>
          cases List.map_eq_nil_iff.mp h
          cases arity with
          | unary => exact OperatorId.unsigned_applyOne id hb.symm
          | binary => rfl
      | cons c xs =>
          obtain ⟨d, ys, rfl, hd, -⟩ := List.map_eq_cons_iff.mp h
          have hs' : id.looksAtSign [a, c] = false := by
            rw [← hs]
            cases id <;> rfl
          cases arity <;> exact OperatorId.unsigned_applyTwo id hb.symm hd.symm hs'

/-! ## Functions -/

namespace FunctionId

/-- A function of finite numbers that takes zeros to zeros. -/
theorem unsigned_onFinite_of_zero {f : Decimal → Option Decimal} {doing : String} {x y : Decimal}
    (hf : f x = some y) (hy : y.coeff = 0) :
    (Outcome.ofLimited doing (Number.onFinite f (.finite x))).unsigned = .ok Number.zero := by
  rw [Outcome.unsigned_ofLimited, Number.onFinite, hf, Option.map_some, Option.map_some,
    Number.unsigned_fit_of_zero hy]
  rfl

theorem unsigned_ofFinite_of_zero {doing : String} {x : Decimal} (hx : x.coeff = 0) :
    (Outcome.ofFinite doing (.fit x)).unsigned = .ok Number.zero := by
  rw [Outcome.unsigned_ofFinite, Number.unsigned_fit_of_zero hx]
  rfl

theorem unsigned_mapFinite_of_zero {f : Decimal → Decimal} {x : Decimal}
    (hf : (f x).coeff = 0) :
    Outcome.unsigned (.ok (Number.mapFinite f (.finite x))) = .ok Number.zero :=
  congrArg Except.ok (Number.unsigned_of_zero (Decimal.coeff_canonical_eq_zero.mpr hf))

theorem isOutsideUnit_of_zero {x : Decimal} (hx : x.coeff = 0) :
    isOutsideUnit (.finite x) = false := by
  have habs : (Number.finite x).abs.unsigned = Number.zero.unsigned :=
    Number.unsigned_of_zero (x := x.abs) hx
  exact Number.lt_congr (a := Number.one) rfl habs

section

variable {p : Nat} {xs ys : List Number} (h : xs.map Number.unsigned = ys.map Number.unsigned)

include h

/-- A function of one argument that has one outcome at all zeros. -/
theorem unsigned_unary {f : Number → Outcome} (r : Outcome)
    (hf : ∀ x : Decimal, x.coeff = 0 → (f (.finite x)).unsigned = r) :
    (unary xs f).unsigned = (unary ys f).unsigned := by
  cases xs with
  | nil =>
      cases List.map_eq_nil_iff.mp h.symm
      rfl
  | cons x xs =>
      obtain ⟨y, ys, rfl, hy, -⟩ := List.map_eq_cons_iff.mp h.symm
      exact Number.eq_of_unsigned (f := fun x => (f x).unsigned) r hf hy.symm

theorem unsigned_foldl {f : Number → Number → Number}
    (hf : ∀ {a b x y : Number}, a.unsigned = b.unsigned → x.unsigned = y.unsigned →
      (f a x).unsigned = (f b y).unsigned) {a b : Number} (hab : a.unsigned = b.unsigned) :
    (xs.foldl f a).unsigned = (ys.foldl f b).unsigned := by
  induction xs generalizing ys a b with
  | nil =>
      cases List.map_eq_nil_iff.mp h.symm
      exact hab
  | cons x xs ih =>
      obtain ⟨y, ys, rfl, hy, hys⟩ := List.map_eq_cons_iff.mp h.symm
      exact ih hys.symm (hf hab hy.symm)

theorem unsigned_best {better : Number → Number → Bool}
    (hbetter : ∀ {a b x y : Number}, a.unsigned = b.unsigned → x.unsigned = y.unsigned →
      better a x = better b y) :
    (best better xs).unsigned = (best better ys).unsigned := by
  cases xs with
  | nil =>
      cases List.map_eq_nil_iff.mp h.symm
      rfl
  | cons x xs =>
      obtain ⟨y, ys, rfl, hy, hys⟩ := List.map_eq_cons_iff.mp h.symm
      refine Outcome.ok_congr (unsigned_foldl hys.symm (fun hab hxy => ?_) hy.symm)
      rw [hbetter hxy hab]
      split
      · exact hxy
      · exact hab

theorem unsigned_total : (total p xs).unsigned = (total p ys).unsigned :=
  unsigned_foldl h Number.add_congr rfl

theorem isEmpty_congr : xs.isEmpty = ys.isEmpty := by
  rw [← List.isEmpty_map (f := Number.unsigned), h, List.isEmpty_map]

/-- No function but `random` looks at the sign of a zero. -/
theorem unsigned_apply {id : FunctionId} (hid : id ≠ random) (draw draw' : Decimal) :
    (id.apply p draw xs).unsigned = (id.apply p draw' ys).unsigned := by
  cases id with
  | abs =>
      refine unsigned_unary h (.ok Number.zero) fun x hx => ?_
      exact congrArg Except.ok (Number.unsigned_of_zero (x := x.abs) hx)
  | ceil | floor | round =>
      refine unsigned_unary h (.ok Number.zero) fun x hx => ?_
      exact unsigned_mapFinite_of_zero (Decimal.coeff_toIntegral_of_zero hx _)
  | sin | tan =>
      refine unsigned_unary h (.ok Number.zero) fun x hx => ?_
      exact unsigned_onFinite_of_zero (y := x) (if_pos hx) hx
  | cos =>
      refine unsigned_unary h (.ok Number.one) fun x hx => ?_
      have hcos : Elementary.cos? p x = some Decimal.one := if_pos hx
      have hone : Number.fit Decimal.one = Number.one := by decide +kernel
      rw [Number.onFinite, hcos, Option.map_some, hone]
      rfl
  | asin =>
      refine unsigned_unary h (.ok Number.zero) fun x hx => ?_
      rw [isOutsideUnit_of_zero hx]
      exact unsigned_onFinite_of_zero (y := x) (if_pos hx) hx
  | acos =>
      refine unsigned_unary h (Outcome.unsigned (Outcome.ofLimited "arc cosine failed"
        ((Elementary.piFraction? p 4 2 false).map Number.fit))) fun x hx => ?_
      have hacos : Elementary.arccos? p x = Elementary.piFraction? p 4 2 false := if_pos hx
      rw [isOutsideUnit_of_zero hx, if_neg Bool.false_ne_true, Number.onFinite, hacos]
  | atan =>
      refine unsigned_unary h (.ok Number.zero) fun x hx => ?_
      rw [Number.arctan, Elementary.arctan, if_pos hx]
      exact unsigned_ofFinite_of_zero hx
  | sinh =>
      refine unsigned_unary h (.ok Number.zero) fun x hx => ?_
      rw [Number.sinh, Elementary.sinh, if_pos hx]
      exact unsigned_ofFinite_of_zero hx
  | cosh =>
      refine unsigned_unary h (.ok Number.one) fun x hx => ?_
      rw [Number.cosh, Elementary.cosh, if_pos hx]
      rfl
  | tanh =>
      refine unsigned_unary h (.ok Number.zero) fun x hx => ?_
      rw [Number.tanh, Elementary.tanh, if_pos hx]
      exact unsigned_ofFinite_of_zero hx
  | ln | log =>
      refine unsigned_unary h (.error .notPositive) fun x hx => ?_
      simp only [Number.isAtMostZero, hx, decide_true, Bool.true_or, if_true]
      rfl
  | min => exact unsigned_best h fun hnext hbest => Number.lt_congr hnext hbest
  | max => exact unsigned_best h fun hnext hbest => Number.lt_congr hbest hnext
  | sum =>
      simp only [apply, isEmpty_congr h]
      split
      · rfl
      · exact Outcome.ofFinite_congr (unsigned_total h)
  | average =>
      have hlength : xs.length = ys.length := by
        rw [← List.length_map (f := Number.unsigned), h, List.length_map]
      simp only [apply, isEmpty_congr h, hlength]
      cases ys with
      | nil => rfl
      | cons y ys =>
          have hne := Number.isZero_ofNat (Nat.succ_ne_zero ys.length)
          exact Outcome.ofFinite_congr (Number.div_congr (unsigned_total h) hne)
  | random => exact absurd rfl hid
  | other => rfl

end

end FunctionId

end Reckoner
