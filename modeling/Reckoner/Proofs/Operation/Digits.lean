/-
# Digits of the primitives' results

What a primitive gives is a finite number of at most `p` significant digits,
if that holds of its operands (`Number.Within`).  Most primitives round their
result and refuse what is not finite, so that nothing about the operands is
needed.  The others depend on them:

    negate, abs         the sign changes and nothing else
    ceil, floor, round  digits behind the point go, and one may carry
    min, max            one of the operands
    power, arc sine …   a zero operand is given back, or a one

The constants and `random` have no operands and are not refused either; they
are numbers because they are not too large.
-/
import Reckoner.Operation
import Reckoner.Proofs.Elementary.Constants
import Reckoner.Proofs.Elementary.Digits
import Reckoner.Proofs.Elementary.Machin
import Reckoner.Proofs.Sequencing

namespace Reckoner

variable {p : Nat}

/-- A finite number of at most `p` significant digits. -/
inductive Number.Within (p : Nat) : Number → Prop
  | finite {x : Decimal} : x.significant ≤ p → Within p (.finite x)

/-- Whether an outcome, if it is a number, has a property. -/
def Outcome.All (P : Number → Prop) (outcome : Outcome) : Prop := ∀ x, outcome = .ok x → P x

/-- Whether an outcome, if it is a number, is within `p` digits. -/
abbrev Outcome.Within (p : Nat) (outcome : Outcome) : Prop := outcome.All (Number.Within p)

/-! ## Arithmetic -/

namespace Number

theorem short_add (hp : 0 < p) (x y : Number) : (x.add p y).Short p := by
  unfold Number.add
  split
  · exact short_fit hp (Decimal.significant_addRounded hp _ _)
  · exact .nan
  · exact .nan
  · exact short_ite .infinite .nan
  · exact .infinite
  · exact .infinite

theorem short_mul (hp : 0 < p) (x y : Number) : (x.mul p y).Short p := by
  unfold Number.mul
  split
  · exact short_fit hp (Decimal.significant_round hp _)
  · exact .nan
  · exact .nan
  · exact short_ite .nan .infinite

theorem short_div (hp : 0 < p) (x y : Number) : (x.div p y).Short p := by
  unfold Number.div
  dsimp only
  split
  · exact .nan
  · exact .nan
  · exact .nan
  · exact .infinite
  · exact .finite (Decimal.significant_zero hp _ _)
  · split
    · exact short_ite .nan .infinite
    · next hb =>
        exact short_fit hp (Decimal.significant_ofRatio hp _ _ (Nat.pos_of_ne_zero hb) _)

theorem short_mod (hp : 0 < p) (x y : Number) : (x.mod p y).Short p := by
  unfold Number.mod
  split
  · exact short_ite .nan
      (short_ite .infinite (short_fit hp (Decimal.significant_modRounded hp _ _)))
  · exact short_fit hp (Decimal.significant_round hp _)
  · exact .nan

theorem short_pow? (hp : 0 < p) {x y z : Number} (h : x.pow? p y = some z) : z.Short p := by
  unfold Number.pow? at h
  split at h
  · next a b =>
      split at h
      · cases h
        exact short_specialPower hp _ _
      · next hz =>
          rw [Bool.or_eq_true, decide_eq_true_eq, decide_eq_true_eq, not_or] at hz
          exact Elementary.short_pow? hp hz.1 h
  · cases h
    exact short_specialPower hp _ _

theorem within_neg (hp : 0 < p) {x : Number} (h : x.Within p) : x.neg.Within p := by
  cases h with
  | finite h => exact .finite (Decimal.significant_setSign hp h _)

theorem within_abs (hp : 0 < p) {x : Number} (h : x.Within p) : x.abs.Within p := by
  cases h with
  | finite h => exact .finite (Decimal.significant_setSign hp h _)

/-- Cutting or raising to an integer keeps a number within its digits. -/
theorem within_mapFinite {f : Decimal → Decimal}
    (hf : ∀ x, x.significant ≤ p → (f x).significant ≤ p) {x : Number} (h : x.Within p) :
    (mapFinite f x).Within p := by
  cases h with
  | finite h =>
      exact .finite (Nat.le_trans (Nat.le_of_eq (Decimal.significant_canonical _)) (hf _ h))

theorem within_fit (hp : 0 < p) {x : Decimal} (h : x.significant ≤ p)
    (hm : x.coeff ≠ 0 → x.magnitude ≤ exponentLimit) : (fit x).Within p := by
  obtain ⟨y, hy, rfl | hzero⟩ := fit_eq_finite hm
  · rw [hy]
    exact .finite (x.significant_canonical ▸ h)
  · rw [hy]
    exact .finite (Decimal.significant_of_isZero hp hzero)

theorem short_onFinite (hp : 0 < p) {f : Decimal → Option Decimal}
    (hf : ∀ x y, f x = some y → y.significant ≤ p) {x z : Number}
    (h : onFinite f x = some z) : z.Short p := by
  unfold onFinite at h
  split at h
  · obtain ⟨y, hy, rfl⟩ := Option.map_eq_some_iff.mp h
    exact short_fit hp (hf _ y hy)
  · cases h
    exact .nan

theorem short_logarithm (hp : 0 < p) {f : Decimal → Option Decimal}
    (hf : ∀ x y, f x = some y → y.significant ≤ p) {x z : Number} (hx : x.Within p)
    (h : logarithm f x = some z) : z.Short p := by
  cases hx with
  | finite hx =>
      obtain ⟨y, hy, rfl⟩ := Option.map_eq_some_iff.mp h
      exact short_fit hp (hf _ y hy)

end Number

/-! ## Outcomes -/

namespace Outcome

variable {P : Number → Prop}

theorem all_ok {x : Number} (h : P x) : All P (.ok x) := by
  intro _ he
  cases he
  exact h

theorem all_error (reason : Reason) : All P (.error reason) := nofun

theorem all_ite {c : Prop} [Decidable c] {a b : Outcome} (ha : a.All P) (hb : b.All P) :
    All P (if c then a else b) := by
  split
  · exact ha
  · exact hb

theorem within_ofFinite {doing : String} {x : Number} (h : x.Short p) :
    (ofFinite doing x).Within p := by
  cases h with
  | finite h => exact all_ok (.finite h)
  | infinite | nan => exact all_error _

theorem within_ofLimited {doing : String} {x : Option Number}
    (h : ∀ y, x = some y → y.Short p) : (ofLimited doing x).Within p := by
  cases x with
  | none => exact all_error _
  | some x => exact within_ofFinite (h x rfl)

end Outcome

open Outcome

theorem Number.within_parse (hp : 0 < p) (text : String) : (Number.parse p text).Within p := by
  unfold Number.parse
  split
  · exact all_error _
  · next x _ =>
      refine within_ofFinite ?_
      cases x with
      | finite x => exact short_fit hp (Decimal.significant_round hp x)
      | infinite => exact .infinite
      | nan => exact .nan

/-! ## Operators -/

theorem OperatorId.within_applyTwo (hp : 0 < p) (id : OperatorId) {a : Number}
    (ha : a.Within p) (b : Number) : (id.applyTwo p a b).Within p := by
  cases id with
  | negate => exact all_ok (Number.within_neg hp ha)
  | add => exact within_ofFinite (Number.short_add hp _ _)
  | subtract => exact within_ofFinite (Number.short_add hp _ _)
  | multiply => exact within_ofFinite (Number.short_mul hp _ _)
  | divide => exact all_ite (all_error _) (within_ofFinite (Number.short_div hp _ _))
  | modulo => exact all_ite (all_error _) (within_ofFinite (Number.short_mod hp _ _))
  | power =>
      exact all_ite (all_error _)
        (all_ite (all_error _) (within_ofLimited fun _ => Number.short_pow? hp))
  | other => exact all_error _

theorem OperatorId.within_applyOne (hp : 0 < p) (id : OperatorId) {a : Number}
    (ha : a.Within p) : (id.applyOne a).Within p := by
  cases id with
  | negate => exact all_ok (Number.within_neg hp ha)
  | _ => exact all_error _

theorem Operator.within_apply (hp : 0 < p) (op : Operator) {xs : List Number}
    (hxs : ∀ x ∈ xs, x.Within p) : (op.apply p xs).Within p := by
  unfold Operator.apply
  split
  · exact all_error _
  · exact OperatorId.within_applyOne hp _ (hxs _ List.mem_cons_self)
  · exact all_error _
  · exact OperatorId.within_applyTwo hp _ (hxs _ List.mem_cons_self) _

/-! ## Functions -/

/-- Whether a decimal is what `random` may give: from zero up to but not
including one. -/
def Decimal.IsDraw (x : Decimal) : Prop := x.negative = false ∧ x.lt Decimal.one = true

theorem Decimal.magnitude_one : Decimal.one.magnitude = 0 := by
  have hle : digitCount 1 ≤ 1 := (digitCount_le_iff (by decide)).mpr (by decide)
  have hpos := digitCount_pos 1
  simp only [Decimal.magnitude, Decimal.one, Decimal.digits]
  omega

theorem Decimal.magnitude_le_of_absLt {x y : Decimal} (hx : x.coeff ≠ 0) (h : x.absLt y = true) :
    x.magnitude ≤ y.magnitude := by
  unfold Decimal.absLt at h
  split at h
  · cases h
  · split at h
    · exact Int.le_of_lt (of_decide_eq_true h)
    · next he => exact Int.le_of_eq (Decidable.not_not.mp he)

theorem Decimal.magnitude_le_of_isDraw {x : Decimal} (h : IsDraw x) (hx : x.coeff ≠ 0) :
    x.magnitude ≤ 0 := by
  obtain ⟨hn, hlt⟩ := h
  unfold Decimal.lt at hlt
  rw [if_neg hx, if_neg (by decide), hn] at hlt
  rw [← magnitude_one]
  exact magnitude_le_of_absLt hx hlt

theorem Number.within_draw (hp : 0 < p) {x : Decimal} (h : Decimal.IsDraw x) :
    (Number.fit (x.round p)).Within p := by
  refine Number.within_fit hp (Decimal.significant_round hp x) fun hne => ?_
  have hx : x.coeff ≠ 0 := fun h0 => hne (Decimal.coeff_round_of_zero h0 p)
  have hround := Decimal.magnitude_round_le p x
  have hdraw := Decimal.magnitude_le_of_isDraw h hx
  have hlimit : (1 : Int) ≤ Number.exponentLimit := by decide
  omega

namespace FunctionId

theorem all_unary {P : Number → Prop} {xs : List Number} (hxs : ∀ x ∈ xs, P x)
    {f : Number → Outcome} (hf : ∀ x, P x → (f x).All P) : (unary xs f).All P := by
  cases xs with
  | nil => exact all_error _
  | cons x xs => exact hf x (hxs x List.mem_cons_self)

/-- The best argument is one of the arguments. -/
theorem mem_of_best {better : Number → Number → Bool} {xs : List Number} {y : Number}
    (h : best better xs = .ok y) : y ∈ xs := by
  have hfold : ∀ (rest : List Number) (x : Number),
      rest.foldl (fun best next => if better next best then next else best) x ∈ x :: rest := by
    intro rest
    induction rest with
    | nil =>
        intro x
        exact List.mem_cons_self
    | cons z rest ih =>
        intro x
        rw [List.foldl_cons]
        split
        · exact List.mem_cons_of_mem _ (ih z)
        · rcases List.mem_cons.mp (ih x) with he | hm
          · rw [he]
            exact List.mem_cons_self
          · exact List.mem_cons_of_mem _ (List.mem_cons_of_mem _ hm)
  cases xs with
  | nil => cases h
  | cons x xs =>
      cases h
      exact hfold xs x

theorem all_best {P : Number → Prop} {better : Number → Number → Bool} {xs : List Number}
    (hxs : ∀ x ∈ xs, P x) : (best better xs).All P :=
  fun _ h => hxs _ (mem_of_best h)

/-- A sum is rounded whenever there was something to add. -/
theorem short_total (hp : 0 < p) (xs : List Number) : (total p xs).Short p := by
  unfold total
  rcases List.eq_nil_or_concat xs with rfl | ⟨ys, y, rfl⟩
  · exact .finite (Decimal.significant_zero hp _ _)
  · rw [List.concat_eq_append, List.foldl_append]
    exact Number.short_add hp _ _

theorem within_apply (hp : 0 < p) {draw : Decimal} (hd : draw.IsDraw) (id : FunctionId)
    {xs : List Number} (hxs : ∀ x ∈ xs, x.Within p) : (id.apply p draw xs).Within p := by
  cases id with
  | abs => exact all_unary hxs fun x hx => all_ok (Number.within_abs hp hx)
  | ceil =>
      exact all_unary hxs fun x hx =>
        all_ok (Number.within_mapFinite (fun _ => Decimal.significant_toIntegral hp _) hx)
  | floor =>
      exact all_unary hxs fun x hx =>
        all_ok (Number.within_mapFinite (fun _ => Decimal.significant_toIntegral hp _) hx)
  | round =>
      exact all_unary hxs fun x hx =>
        all_ok (Number.within_mapFinite (fun _ => Decimal.significant_toIntegral hp _) hx)
  | sin =>
      exact all_unary hxs fun x _ => within_ofLimited fun _ =>
        Number.short_onFinite hp fun _ _ =>
          Elementary.significant_circular? (fun _ => Decimal.significant_of_isZero hp)
            fun _ => Approximable.significant_nearest hp _
  | cos =>
      exact all_unary hxs fun x _ => within_ofLimited fun _ =>
        Number.short_onFinite hp fun _ _ =>
          Elementary.significant_circular? (fun _ _ => Decimal.significant_one hp _ _)
            fun _ => Approximable.significant_nearest hp _
  | tan =>
      exact all_unary hxs fun x _ => within_ofLimited fun _ =>
        Number.short_onFinite hp fun _ _ =>
          Elementary.significant_circular? (fun _ => Decimal.significant_of_isZero hp)
            (Elementary.significant_tangent hp)
  | asin =>
      exact all_unary hxs fun x _ => all_ite (all_error _) (within_ofLimited fun _ =>
        Number.short_onFinite hp fun _ _ => Elementary.significant_arcsin? hp)
  | acos =>
      exact all_unary hxs fun x _ => all_ite (all_error _) (within_ofLimited fun _ =>
        Number.short_onFinite hp fun _ _ => Elementary.significant_arccos? hp)
  | atan =>
      refine all_unary hxs fun x hx => within_ofFinite ?_
      cases hx with
      | finite => exact Number.short_fit hp (Elementary.significant_arctan hp _)
  | sinh =>
      refine all_unary hxs fun x hx => within_ofFinite ?_
      cases hx with
      | finite => exact Elementary.short_sinh hp _
  | cosh =>
      refine all_unary hxs fun x hx => within_ofFinite ?_
      cases hx with
      | finite => exact Elementary.short_cosh hp _
  | tanh =>
      refine all_unary hxs fun x hx => within_ofFinite ?_
      cases hx with
      | finite => exact Elementary.short_tanh hp _
  | ln =>
      exact all_unary hxs fun x hx => all_ite (all_error _) (within_ofLimited fun _ =>
        Number.short_logarithm hp (fun _ _ => Elementary.significant_ln? hp) hx)
  | log =>
      exact all_unary hxs fun x hx => all_ite (all_error _) (within_ofLimited fun _ =>
        Number.short_logarithm hp (fun _ _ => Elementary.significant_log10? hp) hx)
  | min | max => exact all_best hxs
  | sum => exact all_ite (all_error _) (within_ofFinite (short_total hp xs))
  | average => exact all_ite (all_error _) (within_ofFinite (Number.short_div hp _ _))
  | random => exact all_ok (Number.within_draw hp hd)
  | other => exact all_error _

end FunctionId

/-! ## Constants -/

theorem within_pi (p : Precision) : (Number.fit (Elementary.pi p.digits)).Within p.digits :=
  Number.within_fit p.positive (Decimal.significant_round p.positive _) fun h =>
    Int.le_trans (Elementary.magnitude_pi_le p.digits h) (by decide)

theorem within_euler (p : Precision) :
    (Number.fit (Elementary.euler p.digits)).Within p.digits := by
  have hm : (Elementary.euler p.digits).magnitude ≤ Number.exponentLimit :=
    Int.le_trans (Elementary.magnitude_euler_le p) (by decide)
  have hs : (Elementary.euler p.digits).significant ≤ p.digits :=
    Approximable.significant_nearest p.positive _
  exact Number.within_fit p.positive hs fun _ => hm

theorem ConstantId.within_value (p : Precision) (id : ConstantId) :
    (id.value p.digits).Within p.digits := by
  cases id with
  | pi => exact all_ok (within_pi p)
  | e => exact all_ok (within_euler p)
  | other => exact all_error _

end Reckoner
