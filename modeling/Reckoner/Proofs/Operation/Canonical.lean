/-
# Numbers in their shortest form

Zeros behind a decimal change the way it is written and not the number.  A number is
canonical if it is written without, and canonical numbers of one sign and one value
are the same (`Number.Same.eq`).  What is read from a numeral is canonical, and what a
primitive gives is canonical if its operands are:

    negate, abs           the sign changes and nothing else
    ceil, floor, round    brought into shortest form
    min, max              one of the operands
    power                 a zero or a one, or brought into range
    anything else         brought into range, and thereby into shortest form
-/
import Reckoner.Proofs.Decimal.Scale
import Reckoner.Proofs.Operation.Digits

namespace Reckoner

namespace Number

/-- A number in its shortest form. -/
inductive IsCanonical : Number → Prop
  | finite {x : Decimal} : x.canonical = x → IsCanonical (.finite x)
  | infinite {negative : Bool} : IsCanonical (.infinite negative)
  | nan : IsCanonical .nan

/-- `x.Same y`: the numbers have one sign and one value, however they are written. -/
def Same : Number → Number → Prop
  | finite x, finite y => x.negative = y.negative ∧ x.toRat = y.toRat
  | x, y => x = y

theorem Same.eq {x y : Number} (h : x.Same y) (hx : x.IsCanonical) (hy : y.IsCanonical) :
    x = y := by
  cases hx with
  | finite hx =>
      cases hy with
      | finite hy => rw [← hx, ← hy, Decimal.canonical_eq_of_toRat_eq h.1 h.2]
      | infinite | nan => exact h
  | infinite | nan => exact h

theorem isCanonical_signedZero (negative : Bool) : (finite ⟨negative, 0, 0⟩).IsCanonical :=
  .finite (Decimal.canonical_of_zero rfl)

theorem isCanonical_signedOne (negative : Bool) : (finite ⟨negative, 1, 0⟩).IsCanonical :=
  .finite (Decimal.canonical_of_mod Nat.one_ne_zero)

theorem isCanonical_ite {c : Prop} [Decidable c] {x y : Number} (hx : x.IsCanonical)
    (hy : y.IsCanonical) : (if c then x else y).IsCanonical := by
  split
  · exact hx
  · exact hy

/-- What is brought into range is brought into its shortest form. -/
theorem isCanonical_fit (x : Decimal) : (fit x).IsCanonical := by
  have hcanonical : (finite x.canonical).IsCanonical := .finite x.canonical_canonical
  exact isCanonical_ite hcanonical (isCanonical_ite .infinite
    (isCanonical_ite (isCanonical_signedZero _) hcanonical))

/-! ## Arithmetic -/

theorem isCanonical_neg {x : Number} (h : x.IsCanonical) : x.neg.IsCanonical := by
  cases h with
  | @finite x h => exact .finite (x.canonical_neg.trans (by rw [h]))
  | infinite => exact .infinite
  | nan => exact .nan

theorem isCanonical_abs {x : Number} (h : x.IsCanonical) : x.abs.IsCanonical := by
  cases h with
  | @finite x h => exact .finite (x.canonical_abs.trans (by rw [h]))
  | infinite => exact .infinite
  | nan => exact .nan

theorem isCanonical_mapFinite (f : Decimal → Decimal) (x : Number) :
    (mapFinite f x).IsCanonical := by
  cases x with
  | finite x => exact .finite (f x).canonical_canonical
  | infinite => exact .infinite
  | nan => exact .nan

theorem isCanonical_add (p : Nat) (x y : Number) : (x.add p y).IsCanonical := by
  unfold add
  split
  · exact isCanonical_fit _
  · exact .nan
  · exact .nan
  · exact isCanonical_ite .infinite .nan
  · exact .infinite
  · exact .infinite

theorem isCanonical_mul (p : Nat) (x y : Number) : (x.mul p y).IsCanonical := by
  unfold mul
  split
  · exact isCanonical_fit _
  · exact .nan
  · exact .nan
  · exact isCanonical_ite .nan .infinite

theorem isCanonical_div (p : Nat) (x y : Number) : (x.div p y).IsCanonical := by
  unfold div
  dsimp only
  split
  · exact .nan
  · exact .nan
  · exact .nan
  · exact .infinite
  · exact isCanonical_signedZero _
  · exact isCanonical_ite (isCanonical_ite .nan .infinite) (isCanonical_fit _)

theorem isCanonical_mod (p : Nat) (x y : Number) : (x.mod p y).IsCanonical := by
  unfold mod
  split
  · exact isCanonical_ite .nan (isCanonical_ite .infinite (isCanonical_fit _))
  · exact isCanonical_fit _
  · exact .nan

/-! ## Elementary functions -/

theorem isCanonical_specialPower (x y : Binary64) : (specialPower x y).IsCanonical := by
  unfold specialPower
  dsimp only
  split
  · exact isCanonical_signedOne false
  · exact .nan
  · exact .nan
  · exact isCanonical_ite .nan (isCanonical_ite .infinite (isCanonical_signedZero false))
  · exact isCanonical_ite (isCanonical_signedZero _) .infinite
  · exact isCanonical_ite .infinite (isCanonical_signedZero _)

end Number

theorem Elementary.isCanonical_pow? {p : Nat} {x y : Decimal} {z : Number}
    (h : pow? p x y = some z) : z.IsCanonical := by
  unfold pow? at h
  dsimp only at h
  split at h
  · cases h
    exact Number.isCanonical_signedOne _
  · split at h
    · cases h
      exact Number.isCanonical_fit _
    · split at h
      · cases h
        exact .infinite
      · cases h
        exact Number.isCanonical_signedZero _
      · split at h
        · cases h
        · split at h
          · cases h
            exact Number.isCanonical_fit _
          · cases h
            exact Number.isCanonical_fit _

namespace Number

theorem isCanonical_pow? {p : Nat} {x y z : Number} (h : x.pow? p y = some z) :
    z.IsCanonical := by
  unfold pow? at h
  split at h
  · split at h
    · cases h
      exact isCanonical_specialPower _ _
    · exact Elementary.isCanonical_pow? h
  · cases h
    exact isCanonical_specialPower _ _

theorem isCanonical_onFinite {f : Decimal → Option Decimal} {x z : Number}
    (h : onFinite f x = some z) : z.IsCanonical := by
  cases x with
  | finite x =>
      obtain ⟨y, -, rfl⟩ := Option.map_eq_some_iff.mp h
      exact isCanonical_fit y
  | infinite | nan =>
      cases h
      exact .nan

theorem isCanonical_logarithm {f : Decimal → Option Decimal} {x z : Number}
    (h : logarithm f x = some z) : z.IsCanonical := by
  cases x with
  | finite x =>
      obtain ⟨y, -, rfl⟩ := Option.map_eq_some_iff.mp h
      exact isCanonical_fit y
  | infinite =>
      cases h
      exact .infinite
  | nan =>
      cases h
      exact .nan

theorem isCanonical_arctan (p : Nat) (x : Number) : (x.arctan p).IsCanonical := by
  cases x with
  | finite | infinite => exact isCanonical_fit _
  | nan => exact .nan

theorem isCanonical_sinh (p : Nat) (x : Number) : (x.sinh p).IsCanonical := by
  cases x with
  | finite x =>
      exact isCanonical_ite (isCanonical_fit _) (isCanonical_ite .infinite
        (isCanonical_ite (isCanonical_fit _) (isCanonical_fit _)))
  | infinite => exact .infinite
  | nan => exact .nan

theorem isCanonical_cosh (p : Nat) (x : Number) : (x.cosh p).IsCanonical := by
  cases x with
  | finite x =>
      exact isCanonical_ite (isCanonical_signedOne false) (isCanonical_ite .infinite
        (isCanonical_ite (isCanonical_fit _) (isCanonical_fit _)))
  | infinite => exact .infinite
  | nan => exact .nan

theorem isCanonical_tanh (p : Nat) (x : Number) : (x.tanh p).IsCanonical := by
  cases x with
  | finite x =>
      exact isCanonical_ite (isCanonical_fit _)
        (isCanonical_ite (isCanonical_fit _) (isCanonical_fit _))
  | infinite => exact isCanonical_signedOne _
  | nan => exact .nan

end Number

/-! ## Outcomes -/

open Outcome

namespace Outcome

theorem isCanonical_ofFinite {doing : String} {x : Number} (h : x.IsCanonical) :
    (ofFinite doing x).All Number.IsCanonical := by
  cases x with
  | finite => exact all_ok h
  | infinite | nan => exact all_error _

theorem isCanonical_ofLimited {doing : String} {x : Option Number}
    (h : ∀ y, x = some y → y.IsCanonical) : (ofLimited doing x).All Number.IsCanonical := by
  cases x with
  | none => exact all_error _
  | some x => exact isCanonical_ofFinite (h x rfl)

end Outcome

theorem Number.isCanonical_parse (p : Nat) (text : String) :
    (Number.parse p text).All Number.IsCanonical := by
  unfold Number.parse
  split
  · exact all_error _
  · next x _ =>
      refine isCanonical_ofFinite ?_
      cases x with
      | finite => exact isCanonical_fit _
      | infinite => exact .infinite
      | nan => exact .nan

theorem OperatorId.isCanonical_applyTwo (p : Nat) (id : OperatorId) {a : Number}
    (ha : a.IsCanonical) (b : Number) : (id.applyTwo p a b).All Number.IsCanonical := by
  cases id with
  | negate => exact all_ok (Number.isCanonical_neg ha)
  | add | subtract => exact isCanonical_ofFinite (Number.isCanonical_add _ _ _)
  | multiply => exact isCanonical_ofFinite (Number.isCanonical_mul _ _ _)
  | divide =>
      exact all_ite (all_error _) (isCanonical_ofFinite (Number.isCanonical_div _ _ _))
  | modulo =>
      exact all_ite (all_error _) (isCanonical_ofFinite (Number.isCanonical_mod _ _ _))
  | power =>
      exact all_ite (all_error _) (all_ite (all_error _)
        (isCanonical_ofLimited fun _ => Number.isCanonical_pow?))
  | other => exact all_error _

theorem Operator.isCanonical_apply (p : Nat) (op : Operator) {xs : List Number}
    (hxs : ∀ x ∈ xs, x.IsCanonical) : (op.apply p xs).All Number.IsCanonical := by
  unfold Operator.apply
  split
  · exact all_error _
  · cases op.id with
    | negate => exact all_ok (Number.isCanonical_neg (hxs _ List.mem_cons_self))
    | _ => exact all_error _
  · exact all_error _
  · exact OperatorId.isCanonical_applyTwo p _ (hxs _ List.mem_cons_self) _

namespace FunctionId

theorem isCanonical_total (p : Nat) (xs : List Number) : (total p xs).IsCanonical := by
  unfold total
  rcases List.eq_nil_or_concat xs with rfl | ⟨ys, y, rfl⟩
  · exact Number.isCanonical_signedZero false
  · rw [List.concat_eq_append, List.foldl_append]
    exact Number.isCanonical_add p _ y

theorem isCanonical_apply (p : Nat) (draw : Decimal) (id : FunctionId) {xs : List Number}
    (hxs : ∀ x ∈ xs, x.IsCanonical) : (id.apply p draw xs).All Number.IsCanonical := by
  cases id with
  | abs => exact all_unary hxs fun x hx => all_ok (Number.isCanonical_abs hx)
  | ceil | floor | round =>
      exact all_unary hxs fun x _ => all_ok (Number.isCanonical_mapFinite _ x)
  | sin | cos | tan =>
      exact all_unary hxs fun x _ => isCanonical_ofLimited fun _ => Number.isCanonical_onFinite
  | asin | acos =>
      exact all_unary hxs fun x _ => all_ite (all_error _)
        (isCanonical_ofLimited fun _ => Number.isCanonical_onFinite)
  | atan => exact all_unary hxs fun x _ => isCanonical_ofFinite (x.isCanonical_arctan p)
  | sinh => exact all_unary hxs fun x _ => isCanonical_ofFinite (x.isCanonical_sinh p)
  | cosh => exact all_unary hxs fun x _ => isCanonical_ofFinite (x.isCanonical_cosh p)
  | tanh => exact all_unary hxs fun x _ => isCanonical_ofFinite (x.isCanonical_tanh p)
  | ln | log =>
      exact all_unary hxs fun x _ => all_ite (all_error _)
        (isCanonical_ofLimited fun _ => Number.isCanonical_logarithm)
  | min | max => exact all_best hxs
  | sum => exact all_ite (all_error _) (isCanonical_ofFinite (isCanonical_total p xs))
  | average =>
      exact all_ite (all_error _) (isCanonical_ofFinite (Number.isCanonical_div p _ _))
  | random => exact all_ok (Number.isCanonical_fit _)
  | other => exact all_error _

end FunctionId

theorem ConstantId.isCanonical_value (p : Nat) (id : ConstantId) :
    (id.value p).All Number.IsCanonical := by
  cases id with
  | pi => exact all_ok (Number.isCanonical_fit (Elementary.pi p))
  | e => exact all_ok (Number.isCanonical_fit (Elementary.euler p))
  | other => exact all_error _

end Reckoner
