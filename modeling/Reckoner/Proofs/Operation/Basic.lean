/-
# The four basic operations

Sum, difference, product and quotient are the exact ones, those of the rational
numbers, rounded a single time:

    10^30 - 10^-30    stays just below a power of ten, and is rounded up to it
    1 / 8             is half way between 0.12 and 0.13
    1 / 3             has no last digit

What is not there is a quotient by zero, and a result whose exponent is above the
range once it is rounded.  An exact result may be in range and the rounded one
above it, where rounding carries into a new digit (`carry_leaves_range`).  Below the
range the result is zero, unless rounding carries it up.
-/
import Reckoner.Catalog.Preset
import Reckoner.Precision
import Reckoner.Proofs.Operation.Exact
import Reckoner.Proofs.Sequencing

namespace Reckoner

/-- The exact operation that an operator rounds, if it is one of the four basic ones. -/
def OperatorId.basic? : OperatorId → Option (Rat → Rat → Rat)
  | add => some (· + ·)
  | subtract => some (· - ·)
  | multiply => some (· * ·)
  | divide => some (· / ·)
  | _ => none

namespace Operator

variable {op : Operator} {f : Rat → Rat → Rat} {p : Nat}

theorem apply_basic_roundsOnce (h : op.id.basic? = some f) (x y : Decimal)
    (hy : op.id = .divide → y.toRat ≠ 0) :
    (op.apply p [.finite x, .finite y]).RoundsOnce p (f x.toRat y.toRat) := by
  rw [apply_two]
  refine OperatorId.applyTwo_roundsOnce p ?_ fun hid => by rw [hid] at h; cases h
  generalize op.id = id at h hy ⊢
  cases id with
  | add | subtract | multiply =>
      cases h
      rfl
  | divide =>
      cases h
      exact if_neg (hy rfl)
  | negate | modulo | power | other => cases h

theorem apply_divide_zero (hid : op.id = .divide) (x : Decimal) {y : Decimal} (hy : y.toRat = 0) :
    op.apply p [.finite x, .finite y] = .error .divisionByZero := by
  have hzero : (Number.finite y).isZero = true :=
    beq_iff_eq.mpr (Decimal.toRat_eq_zero_iff.mp hy)
  rw [apply_two, hid, OperatorId.applyTwo, if_pos hzero]

/-- A basic operation fails exactly where it would divide by zero and where the rounded
result is above the range of exponents.  Otherwise its result is the exact one, rounded
a single time, or zero where that is below the range, which it is not if the exact one is
not. -/
theorem basic_roundsOnce (p : Precision) (h : op.id.basic? = some f) (x y : Decimal) :
    let exact := f x.toRat y.toRat
    let outcome := op.apply p.digits [.finite x, .finite y]
    ((∃ reason, outcome = .error reason) ↔
      op.id = .divide ∧ y.toRat = 0 ∨
        Number.exponentLimit < leading (rounded p.digits exact)) ∧
    (op.id = .divide → y.toRat = 0 → outcome = .error .divisionByZero) ∧
    ((op.id = .divide → y.toRat ≠ 0) →
      leading (rounded p.digits exact) ≤ Number.exponentLimit →
      ∃ r : Decimal, outcome = .ok (.finite r) ∧
        r.toRat = (if leading (rounded p.digits exact) < -Number.exponentLimit then 0
          else rounded p.digits exact) ∧
        (-Number.exponentLimit ≤ leading exact → r.toRat = rounded p.digits exact)) := by
  dsimp only
  by_cases hzero : op.id = .divide ∧ y.toRat = 0
  · have hfails := apply_divide_zero (p := p.digits) hzero.1 x hzero.2
    exact ⟨iff_of_true ⟨_, hfails⟩ (.inl hzero), fun _ _ => hfails,
      fun hy => absurd hzero.2 (hy hzero.1)⟩
  · have hy : op.id = .divide → y.toRat ≠ 0 := fun hid hy => hzero ⟨hid, hy⟩
    obtain ⟨hfails, hgives⟩ :=
      (apply_basic_roundsOnce (p := p.digits) h x y hy).error_or_gives
    refine ⟨hfails.trans (or_iff_right hzero).symm, fun hid hy' => absurd hy' (hy hid),
      fun _ hle => ?_⟩
    obtain ⟨r, hr, hvalue⟩ := hgives hle
    refine ⟨r, hr, hvalue, fun hlow => ?_⟩
    have := (leading_rounded p.positive (f x.toRat y.toRat)).1
    rw [hvalue, if_neg (by omega)]

/-- An exact half goes away from zero. -/
theorem basic_roundsOnce_half :
    let x : Decimal := ⟨true, 1, 0⟩
    let y : Decimal := ⟨false, 8, 0⟩
    y.toRat ≠ 0 ∧ leading (rounded 2 (x.toRat / y.toRat)) ≤ Number.exponentLimit ∧
    (Preset.leftward .divide "/" 2).apply 2 [.finite x, .finite y] =
        .ok (.finite ⟨true, 13, -2⟩) ∧
      (⟨true, 13, -2⟩ : Decimal).toRat = rounded 2 (x.toRat / y.toRat) := by
  have hy : (⟨false, 8, 0⟩ : Decimal).toRat ≠ 0 := mt Decimal.toRat_eq_zero_iff.mp (by decide)
  have hvalue : (Preset.leftward .divide "/" 2).apply 2
      [.finite ⟨true, 1, 0⟩, .finite ⟨false, 8, 0⟩] = .ok (.finite ⟨true, 13, -2⟩) :=
    toOption_eq_some.mp (by decide +kernel)
  obtain ⟨hfails, -, hgives⟩ := basic_roundsOnce { digits := 2 }
    (show (Preset.leftward .divide "/" 2).id.basic? = some (· / ·) from rfl)
    ⟨true, 1, 0⟩ ⟨false, 8, 0⟩
  have hbelow := not_lt.mp fun habove => by
    obtain ⟨reason, hreason⟩ := hfails.mpr (.inr habove)
    cases hvalue.symm.trans hreason
  have hexact : (⟨true, 1, 0⟩ : Decimal).toRat / (⟨false, 8, 0⟩ : Decimal).toRat =
      (⟨true, 125, -3⟩ : Decimal).toRat := by
    norm_num [Decimal.toRat]
  have hlow : -Number.exponentLimit ≤
      leading ((⟨true, 1, 0⟩ : Decimal).toRat / (⟨false, 8, 0⟩ : Decimal).toRat) := by
    rw [hexact, Decimal.leading_toRat (by decide)]
    decide +kernel
  obtain ⟨r, hr, -, hrounded⟩ := hgives (fun _ => hy) hbelow
  cases hvalue.symm.trans hr
  exact ⟨hy, hbelow, hvalue, hrounded hlow⟩

/-- At the upper end of the range of exponents the exact sum is there, and the rounded
one is not. -/
theorem carry_leaves_range :
    let x : Decimal := ⟨false, 9, 9000000000000000⟩
    let y : Decimal := ⟨false, 6, 8999999999999999⟩
    x.InRange ∧ y.InRange ∧ leading (x.toRat + y.toRat) = Number.exponentLimit ∧
      (Preset.leftward .add "+" 1).apply 1 [.finite x, .finite y] =
        .error (.unbounded "addition overflowed") := by
  dsimp only
  refine ⟨by decide +kernel, by decide +kernel, ?_, by decide +kernel⟩
  rw [← Decimal.toRat_add, Decimal.leading_toRat (by decide +kernel)]
  decide +kernel

end Operator

end Reckoner
