/-
# Primitives on rational numbers

What the exact primitives would compute if numbers had no length:
`OperatorId.rational?` and `FunctionId.rational?` take rational numbers and give
one.  They give none for a zero divisor, for the wrong number of operands, and for
the primitives whose results are not rational, and otherwise they give one
(`exists_rational`).

    operators    + - * /, and % as `floorMod`
    functions    abs ceil floor, round as `awayFromZero`, of one argument;
                 min max sum avg, of one or more

If the operands denote the rational numbers, and the exact result, with every
partial sum on the way to it, is `Representable` at the precision, a primitive
gives a decimal that denotes that result.
-/
import Reckoner.Operation
import Reckoner.Proofs.Binary64
import Reckoner.Proofs.Catalog.Lookup
import Reckoner.Proofs.Operation.Multiple

namespace Reckoner

/-! ## The exact results -/

/-- The number that digits, and perhaps a point and more digits, stand for. -/
def numeralValue (text : String) : Rat :=
  let whole := text.toList.takeWhile isDigit
  let fraction := (text.toList.dropWhile isDigit).drop 1
  digitsValue (whole ++ fraction) / 10 ^ fraction.length

/-- A number of the list that bounds all of them. -/
def extremeOf (bounds : Rat → Rat → Bool) (qs : List Rat) : Option Rat :=
  qs.find? fun m => qs.all (bounds m)

def sumOf (qs : List Rat) : Rat := qs.foldl (· + ·) 0

/-- What a sum comes to behind each of its terms, counted from an amount. -/
def runningSums (start : Rat) : List Rat → List Rat
  | [] => []
  | q :: qs => (start + q) :: runningSums (start + q) qs

namespace OperatorId

/-- Whether a binary operator gives rational numbers for rational numbers. -/
def isRational : OperatorId → Bool
  | add | subtract | multiply | divide | modulo => true
  | negate | power | other _ => false

/-- Whether the second operand is a divisor. -/
def divides : OperatorId → Bool
  | divide | modulo => true
  | _ => false

/-- The exact result of a binary operator. -/
def rational? (id : OperatorId) (q r : Rat) : Option Rat :=
  match id with
  | add => some (q + r)
  | subtract => some (q - r)
  | multiply => some (q * r)
  | divide => if r = 0 then none else some (q / r)
  | modulo => if r = 0 then none else some (floorMod q r)
  | negate | power | other _ => none

end OperatorId

namespace FunctionId

/-- Whether a function gives rational numbers for rational numbers. -/
def isRational : FunctionId → Bool
  | abs | ceil | floor | round | min | max | sum | average => true
  | _ => false

/-- Whether a function of rational numbers has a single argument. -/
def takesOne : FunctionId → Bool
  | abs | ceil | floor | round => true
  | _ => false

/-- The exact result of a function. -/
def rational? (id : FunctionId) (qs : List Rat) : Option Rat :=
  match id, qs with
  | abs, [q] => some q.abs
  | ceil, [q] => some q.ceil
  | floor, [q] => some q.floor
  | round, [q] => some (awayFromZero q)
  | min, qs => extremeOf (fun m q => decide (m ≤ q)) qs
  | max, qs => extremeOf (fun m q => decide (q ≤ m)) qs
  | sum, _ :: _ => some (sumOf qs)
  | average, _ :: _ => some (sumOf qs / qs.length)
  | _, _ => none

/-- The sums that a function goes through. -/
def partialSums (id : FunctionId) (qs : List Rat) : List Rat :=
  match id with
  | sum | average => runningSums 0 qs
  | _ => []

end FunctionId

/-! ## Sums -/

theorem foldl_add_eq (q : Rat) (qs : List Rat) : qs.foldl (· + ·) q = q + sumOf qs := by
  induction qs generalizing q with
  | nil => exact (Rat.add_zero q).symm
  | cons r qs ih =>
      rw [sumOf, List.foldl_cons, List.foldl_cons, ih, ih (0 + r), Rat.zero_add, Rat.add_assoc]

theorem sumOf_cons (q : Rat) (qs : List Rat) : sumOf (q :: qs) = q + sumOf qs := by
  rw [sumOf, List.foldl_cons, Rat.zero_add, foldl_add_eq]

theorem sumOf_append (qs rs : List Rat) : sumOf (qs ++ rs) = sumOf qs + sumOf rs := by
  rw [sumOf, List.foldl_append, foldl_add_eq]
  rfl

theorem sumOf_perm {qs rs : List Rat} (h : qs.Perm rs) : sumOf qs = sumOf rs :=
  h.foldl_eq' (fun q _ r _ s => by grind) 0

/-! ## Where there is one -/

theorem OperatorId.exists_rational (q : Rat) {r : Rat} {id : OperatorId}
    (h : id.isRational = true) (hr : id.divides = true → r ≠ 0) :
    ∃ s, id.rational? q r = some s := by
  cases id with
  | add | subtract | multiply => exact ⟨_, rfl⟩
  | divide | modulo => exact ⟨_, if_neg (hr rfl)⟩
  | negate | power | other => cases h

theorem OperatorId.ne_zero_of_modulo {q r s : Rat} (h : modulo.rational? q r = some s) : r ≠ 0 :=
  (Option.ite_none_left_eq_some.mp h).1

theorem exists_extremeOf {bounds : Rat → Rat → Bool}
    (htotal : ∀ a b, bounds a b = true ∨ bounds b a = true)
    (htrans : ∀ a b c, bounds a b = true → bounds b c = true → bounds a c = true)
    (q : Rat) (qs : List Rat) : ∃ m, extremeOf bounds (q :: qs) = some m := by
  suffices h : ∃ m ∈ q :: qs, ∀ r ∈ q :: qs, bounds m r = true by
    obtain ⟨m, hm, hall⟩ := h
    exact Option.isSome_iff_exists.mp
      (List.find?_isSome.mpr ⟨m, hm, List.all_eq_true.mpr hall⟩)
  have hself : ∀ a, bounds a a = true := fun a => (htotal a a).elim id id
  induction qs generalizing q with
  | nil => exact ⟨q, List.mem_cons_self, List.forall_mem_singleton.mpr (hself q)⟩
  | cons r qs ih =>
      obtain ⟨m, hm, hall⟩ := ih r
      rcases htotal q m with h | h
      · exact ⟨q, List.mem_cons_self, List.forall_mem_cons.mpr
          ⟨hself q, fun s hs => htrans q m s h (hall s hs)⟩⟩
      · exact ⟨m, List.mem_cons_of_mem _ hm, List.forall_mem_cons.mpr ⟨h, hall⟩⟩

theorem FunctionId.exists_rational {id : FunctionId} {qs : List Rat} (h : id.isRational = true)
    (hne : qs ≠ []) (hone : id.takesOne = true → qs.length = 1) :
    ∃ q, id.rational? qs = some q := by
  obtain ⟨q, qs, rfl⟩ := List.exists_cons_of_ne_nil hne
  cases id with
  | abs | ceil | floor | round =>
      cases List.length_eq_zero_iff.mp (Nat.succ.inj (hone rfl))
      exact ⟨_, rfl⟩
  | min =>
      refine exists_extremeOf (fun a b => ?_) (fun a b c hab hbc => ?_) q qs
      · simpa only [decide_eq_true_eq] using Rat.le_total
      · exact decide_eq_true (Rat.le_trans (of_decide_eq_true hab) (of_decide_eq_true hbc))
  | max =>
      refine exists_extremeOf (fun a b => ?_) (fun a b c hab hbc => ?_) q qs
      · simpa only [decide_eq_true_eq] using Rat.le_total
      · exact decide_eq_true (Rat.le_trans (of_decide_eq_true hbc) (of_decide_eq_true hab))
  | sum | average => exact ⟨_, rfl⟩
  | sin | cos | tan | asin | acos | atan | sinh | cosh | tanh | ln | log | random | other => cases h

/-- A function whose greatest number of arguments is one admits no more. -/
theorem Function.le_one_of_admits {f : Function} {k : Nat} (h : f.most = .ofNat 1)
    (ha : f.admits k = true) : k ≤ 1 := by
  obtain ⟨d, hd, hone⟩ :=
    Binary64.value?_eq_some_iff.mp (Binary64.value?_ofNat (n := 1) (by decide))
  simp only [Function.admits, h, hd, Bool.and_eq_true, Bool.not_eq_true', Number.ofNat] at ha
  have hge := ha.2
  have hpos := digitCount_pos k
  unfold Number.fit at hge
  split at hge
  · next h0 =>
      have : k = 0 := h0
      omega
  · split at hge
    · cases hge
    · split at hge
      · next hlow =>
          simp only [Decimal.magnitude, Decimal.digits, Decimal.ofNat, Number.exponentLimit] at hlow
          omega
      · refine Nat.le_of_not_lt fun hlt => ?_
        have hd' : d.lt (Decimal.ofNat k).canonical = true := by
          rw [Decimal.lt_iff, hone, Decimal.toRat_canonical, Decimal.toRat_ofNat]
          exact Rat.natCast_lt_natCast.mpr hlt
        rw [Number.lt, hd'] at hge
        cases hge

/-! ## Rounding once -/

/-- `Gives outcome q`: the outcome is a decimal that denotes `q`. -/
def Outcome.Gives (outcome : Outcome) (q : Rat) : Prop :=
  ∃ x : Decimal, outcome = .ok (.finite x) ∧ x.toRat = q

/-- `RoundsOnce p outcome q`: the outcome is `q` rounded a single time, to `p`
digits.  Above the range of exponents it is refused, below the range it is zero. -/
def Outcome.RoundsOnce (p : Nat) (outcome : Outcome) (q : Rat) : Prop :=
  if Number.exponentLimit < leading (rounded p q) then
    ∃ doing, outcome = .error (.unbounded doing)
  else outcome.Gives (if leading (rounded p q) < -Number.exponentLimit then 0 else rounded p q)

variable {p : Nat} {x y : Decimal} {q : Rat}

theorem Outcome.roundsOnce_fit {doing : String} (hx : x.toRat = rounded p q) :
    (Outcome.ofFinite doing (.fit x)).RoundsOnce p q := by
  unfold RoundsOnce
  rw [← hx]
  by_cases hc : x.coeff = 0
  · rw [Decimal.toRat_of_zero hc, leading_zero, if_neg (by decide), if_neg (by decide)]
    exact ⟨x.canonical, by rw [Number.fit, if_pos hc]; rfl,
      x.toRat_canonical.trans (Decimal.toRat_of_zero hc)⟩
  rw [Decimal.leading_toRat hc, Number.fit, if_neg hc]
  split
  · exact ⟨doing, rfl⟩
  · split
    · exact ⟨_, rfl, Decimal.toRat_of_zero rfl⟩
    · exact ⟨x.canonical, rfl, x.toRat_canonical⟩

/-- There is no result exactly where the rounded one is above the range of exponents. -/
theorem Outcome.RoundsOnce.error_or_gives {outcome : Outcome} (h : outcome.RoundsOnce p q) :
    ((∃ reason, outcome = .error reason) ↔ Number.exponentLimit < leading (rounded p q)) ∧
      (leading (rounded p q) ≤ Number.exponentLimit → outcome.Gives
        (if leading (rounded p q) < -Number.exponentLimit then 0 else rounded p q)) := by
  unfold RoundsOnce at h
  split at h
  · next habove =>
      obtain ⟨doing, hfails⟩ := h
      exact ⟨iff_of_true ⟨_, hfails⟩ habove, fun hle => absurd habove (not_lt.mpr hle)⟩
  · next hbelow =>
      refine ⟨iff_of_false ?_ hbelow, fun _ => h⟩
      rintro ⟨reason, hfails⟩
      obtain ⟨x, hx, -⟩ := h
      cases hx.symm.trans hfails

/-- What is representable has its leading digit in range. -/
theorem Representable.leading_le (h : Representable p q) :
    (leading q).natAbs ≤ Number.exponentLimit := by
  obtain ⟨x, -, hx, rfl⟩ := h
  by_cases hc : x.coeff = 0
  · rw [Decimal.toRat_of_zero hc, leading_zero]
    decide
  · rw [Decimal.leading_toRat hc]
    exact hx hc

/-- Nothing is rounded, refused or lost where the exact result is representable. -/
theorem Outcome.RoundsOnce.gives {outcome : Outcome} (h : outcome.RoundsOnce p q) (hp : 0 < p)
    (hq : Representable p q) : outcome.Gives q := by
  have hrange := hq.leading_le
  unfold RoundsOnce at h
  rwa [hq.rounded_eq hp, if_neg (by omega), if_neg (by omega)] at h

/-- Nothing is lost where the exact result is not below the range of exponents. -/
theorem Outcome.RoundsOnce.gives_rounded {outcome : Outcome} (h : outcome.RoundsOnce p q)
    (hp : 0 < p) (hlow : -Number.exponentLimit ≤ leading q)
    (hhigh : leading (rounded p q) ≤ Number.exponentLimit) : outcome.Gives (rounded p q) := by
  have hle := (leading_rounded hp q).1
  unfold RoundsOnce at h
  rwa [if_neg (by omega), if_neg (by omega)] at h

/-! ## Numerals -/

theorem numeralValue_of_spells {text : String} {m : Nat} {e : Int}
    (h : Spells text.toList m e) : numeralValue text = (Decimal.mk false m e).toRat := by
  unfold numeralValue
  generalize text.toList = cs at h
  cases h with
  | whole _ hds =>
      rw [(takeWhile_digits hds).1, (takeWhile_digits hds).2]
      simp only [List.drop_nil, List.append_nil, List.length_nil, Rat.pow_zero, Decimal.toRat,
        Bool.false_eq_true, if_false, Rat.zpow_zero]
      grind
  | point _ hds =>
      rw [(takeWhile_digits_point hds _).1, (takeWhile_digits_point hds _).2]
      simp only [List.drop_succ_cons, List.drop_zero, Decimal.toRat, Bool.false_eq_true, if_false,
        Rat.zpow_neg, Rat.zpow_natCast, Rat.div_def]

/-- A numeral in range is rounded once. -/
theorem Number.parse_roundsOnce (p : Nat) {text : String} {m : Nat} {e : Int}
    (h : Spells text.toList m e) (hrange : (Decimal.mk false m e).InRange) :
    (Number.parse p text).RoundsOnce p (Decimal.mk false m e).toRat := by
  have hread := Number.read?_of_spells h
  rw [String.ofList_toList, Number.fit_of_inRange hrange] at hread
  unfold Number.parse
  rw [hread]
  have hround := Decimal.toRat_round_eq p (Decimal.mk false m e).canonical
  rw [Decimal.toRat_canonical] at hround
  exact Outcome.roundsOnce_fit hround

theorem Number.parse_exact (hp : 0 < p) {text : String} {m : Nat} {e : Int}
    (h : Spells text.toList m e) (hq : Representable p (numeralValue text)) :
    (Number.parse p text).Gives (numeralValue text) := by
  rw [numeralValue_of_spells h] at hq ⊢
  exact (parse_roundsOnce p h hq.inRange).gives hp hq

/-! ## Operators -/

/-- An operator with an exact result rounds it once, where the multiple that a
remainder is taken from is within the range. -/
theorem OperatorId.applyTwo_roundsOnce (p : Nat) {id : OperatorId}
    (h : id.rational? x.toRat y.toRat = some q)
    (hmultiple : id = modulo → Number.multipleOverflows x y = false) :
    (id.applyTwo p (.finite x) (.finite y)).RoundsOnce p q := by
  have hzero : y.toRat ≠ 0 → y.coeff ≠ 0 ∧ (Number.finite y).isZero = false := by
    intro hy
    have hc : y.coeff ≠ 0 := mt Decimal.toRat_of_zero hy
    exact ⟨hc, beq_eq_false_iff_ne.mpr hc⟩
  cases id with
  | negate | power | other => cases h
  | add =>
      cases h
      exact Outcome.roundsOnce_fit (Decimal.toRat_addRounded p x y)
  | subtract =>
      cases h
      exact Outcome.roundsOnce_fit (Decimal.toRat_subRounded p x y)
  | multiply =>
      cases h
      exact Outcome.roundsOnce_fit (Decimal.toRat_mulRounded p x y)
  | divide =>
      simp only [rational?, Option.ite_none_left_eq_some, Option.some.injEq] at h
      obtain ⟨hy, rfl⟩ := h
      obtain ⟨hc, hz⟩ := hzero hy
      simp only [applyTwo, hz, Bool.false_eq_true, if_false, Number.div, hc]
      exact Outcome.roundsOnce_fit (Decimal.toRat_divRounded p x hc)
  | modulo =>
      simp only [rational?, Option.ite_none_left_eq_some, Option.some.injEq] at h
      obtain ⟨hy, rfl⟩ := h
      obtain ⟨hc, hz⟩ := hzero hy
      simp only [applyTwo, hz, Bool.false_eq_true, if_false, Number.mod, hc, hmultiple rfl]
      exact Outcome.roundsOnce_fit (Decimal.toRat_modRounded p x hc)

theorem Operator.apply_two (p : Nat) (op : Operator) (a b : Number) :
    op.apply p [a, b] = op.id.applyTwo p a b := by
  obtain ⟨id, symbol, arity, associativity, precedence⟩ := op
  cases arity
  · rfl
  · rfl

/-- Negation needs nothing to be representable: it rounds nothing. -/
theorem Operator.apply_negate {op : Operator} (hid : op.id = .negate) (harity : op.arity = .unary) :
    (op.apply p [.finite x]).Gives (-x.toRat) := by
  obtain ⟨id, symbol, arity, associativity, precedence⟩ := op
  cases hid
  cases harity
  exact ⟨x.neg, rfl, Decimal.toRat_neg x⟩

/-! ## Functions -/

namespace FunctionId

theorem foldl_add_exact (hp : 0 < p) {ds : List Decimal} {start : Decimal}
    (h : ∀ s ∈ runningSums start.toRat (ds.map Decimal.toRat), Representable p s) :
    ∃ z : Decimal, (ds.map Number.finite).foldl (Number.add p) (.finite start) = .finite z ∧
      z.toRat = (ds.map Decimal.toRat).foldl (· + ·) start.toRat := by
  induction ds generalizing start with
  | nil => exact ⟨start, rfl, rfl⟩
  | cons d ds ih =>
      obtain ⟨hd, hds⟩ := List.forall_mem_cons.mp h
      have hsum := (Decimal.toRat_addRounded p start d).trans (hd.rounded_eq hp)
      have hnext : Number.add p (.finite start) (.finite d) =
          .finite (start.addRounded p d).canonical := by
        rw [← hsum] at hd
        exact hd.fit_eq
      rw [← hsum, ← Decimal.toRat_canonical (start.addRounded p d)] at hds
      obtain ⟨z, hz, hzq⟩ := ih hds
      refine ⟨z, ?_, ?_⟩
      · rw [List.map_cons, List.foldl_cons, hnext]
        exact hz
      · rw [List.map_cons, List.foldl_cons, ← hsum,
          ← Decimal.toRat_canonical (start.addRounded p d)]
        exact hzq

theorem total_exact (hp : 0 < p) {ds : List Decimal}
    (h : ∀ s ∈ runningSums 0 (ds.map Decimal.toRat), Representable p s) :
    ∃ z : Decimal, total p (ds.map Number.finite) = .finite z ∧
      z.toRat = sumOf (ds.map Decimal.toRat) := by
  have hzero : Decimal.zero.toRat = 0 := Decimal.toRat_of_zero rfl
  rw [← hzero] at h
  rw [sumOf, ← hzero]
  exact foldl_add_exact hp h

/-- The best of some decimals is one of them, and by the measure that the
comparison is about none is better. -/
theorem best_exact (better : Number → Number → Bool) (measure : Decimal → Rat)
    (hb : ∀ a b, better (.finite a) (.finite b) = true ↔ measure a < measure b)
    (ds : List Decimal) (d : Decimal) :
    ∃ z ∈ d :: ds, best better ((d :: ds).map Number.finite) = .ok (.finite z) ∧
      ∀ e ∈ d :: ds, measure z ≤ measure e := by
  induction ds generalizing d with
  | nil =>
      refine ⟨d, List.mem_singleton_self d, rfl, fun e he => ?_⟩
      cases List.mem_singleton.mp he
      exact Rat.le_refl
  | cons d' ds ih =>
      by_cases hlt : measure d' < measure d
      · obtain ⟨z, hz, hbest, hle⟩ := ih d'
        refine ⟨z, List.mem_cons_of_mem _ hz, ?_, List.forall_mem_cons.mpr ⟨?_, hle⟩⟩
        · rw [← hbest]
          simp only [best, List.map_cons, List.foldl_cons, (hb d' d).mpr hlt, if_true]
        · exact Rat.le_trans (hle d' List.mem_cons_self) (Rat.le_of_lt hlt)
      · obtain ⟨z, hz, hbest, hle⟩ := ih d
        obtain ⟨hd, hds⟩ := List.forall_mem_cons.mp hle
        refine ⟨z, ?_, ?_, List.forall_mem_cons.mpr
          ⟨hd, List.forall_mem_cons.mpr ⟨Rat.le_trans hd (Rat.not_lt.mp hlt), hds⟩⟩⟩
        · rcases List.mem_cons.mp hz with rfl | hz
          · exact List.mem_cons_self
          · exact List.mem_cons_of_mem _ (List.mem_cons_of_mem _ hz)
        · rw [← hbest]
          simp only [best, List.map_cons, List.foldl_cons,
            Bool.eq_false_iff.mpr (mt (hb d' d).mp hlt), Bool.false_eq_true, if_false]

theorem extremeOf_eq (bounds : Rat → Rat → Bool) {qs : List Rat} {m : Rat}
    (hanti : ∀ a b, bounds a b = true → bounds b a = true → a = b) (hm : m ∈ qs)
    (h : ∀ q ∈ qs, bounds m q = true) : extremeOf bounds qs = some m :=
  find?_eq_some_of_unique hm (List.all_eq_true.mpr h) fun r hr hall =>
    hanti r m (List.all_eq_true.mp hall m hm) (h r hr)

theorem ofNat_eq {k : Nat} (hk : k < 2 ^ 53) :
    Number.ofNat k = .finite (Decimal.ofNat k).canonical := by
  refine Number.fit_of_inRange fun _ => ?_
  have hdigits : digitCount k ≤ 16 :=
    (digitCount_le_iff (by decide)).mpr (Nat.lt_trans hk (by decide))
  have hpos := digitCount_pos k
  simp only [Decimal.magnitude, Decimal.digits, Decimal.ofNat, Number.exponentLimit]
  omega

/-- A sum divided by how many there are; only the quotient is rounded again. -/
theorem average_exact (hp : 0 < p) {z : Decimal} {k : Nat} (hk : k ≠ 0) (hlt : k < 2 ^ 53)
    (hq : Representable p (z.toRat / k)) :
    (Outcome.ofFinite "average overflowed" ((Number.finite z).div p (.ofNat k))).Gives
      (z.toRat / k) := by
  have hne : (Decimal.ofNat k).canonical.coeff ≠ 0 := mt Decimal.coeff_canonical_eq_zero.mp hk
  rw [ofNat_eq hlt]
  simp only [Number.div, hne, if_false]
  rw [← Decimal.toRat_ofNat, ← Decimal.toRat_canonical (.ofNat k)] at hq ⊢
  exact (Outcome.roundsOnce_fit (Decimal.toRat_divRounded p z hne)).gives hp hq

/-- A function whose exact result and partial sums are representable gives that
result.  The number of arguments is bounded because an average divides by it. -/
theorem apply_exact (hp : 0 < p) (draw : Decimal) {id : FunctionId} {ds : List Decimal}
    (h : id.rational? (ds.map Decimal.toRat) = some q) (hq : Representable p q)
    (hsums : ∀ s ∈ id.partialSums (ds.map Decimal.toRat), Representable p s)
    (hcount : ds.length < 2 ^ 53) : (id.apply p draw (ds.map Number.finite)).Gives q := by
  cases id with
  | sin | cos | tan | asin | acos | atan | sinh | cosh | tanh | ln | log | random | other => cases h
  | abs =>
      rcases ds with _ | ⟨d, _ | _⟩ <;> cases h
      refine ⟨d.abs, rfl, ?_⟩
      have := Decimal.toRat_abs_nonneg d
      rw [Decimal.toRat_abs d]
      split
      · rw [Rat.abs_neg, Rat.abs_of_nonneg this]
      · rw [Rat.abs_of_nonneg this]
  | ceil =>
      rcases ds with _ | ⟨d, _ | _⟩ <;> cases h
      exact ⟨d.ceil.canonical, rfl, (Decimal.toRat_canonical _).trans (Decimal.toRat_ceil d)⟩
  | floor =>
      rcases ds with _ | ⟨d, _ | _⟩ <;> cases h
      exact ⟨d.floor.canonical, rfl, (Decimal.toRat_canonical _).trans (Decimal.toRat_floor d)⟩
  | round =>
      rcases ds with _ | ⟨d, _ | _⟩ <;> cases h
      exact ⟨d.outward.canonical, rfl, (Decimal.toRat_canonical _).trans (Decimal.toRat_outward d)⟩
  | min =>
      rcases ds with _ | ⟨d, ds⟩
      · cases h
      · obtain ⟨z, hz, hbest, hle⟩ := best_exact (fun next best => next.lt best)
          Decimal.toRat (fun _ _ => Decimal.lt_iff) ds d
        have hleast := extremeOf_eq (fun m q => decide (m ≤ q))
          (fun a b hab hba => Rat.le_antisymm (of_decide_eq_true hab) (of_decide_eq_true hba))
          (List.mem_map_of_mem hz) (List.forall_mem_map.mpr fun e he => decide_eq_true (hle e he))
        exact ⟨z, hbest, Option.some.inj (hleast.symm.trans h)⟩
  | max =>
      rcases ds with _ | ⟨d, ds⟩
      · cases h
      · obtain ⟨z, hz, hbest, hle⟩ := best_exact (fun next best => best.lt next)
          (fun a => -a.toRat) (fun _ _ => Decimal.lt_iff.trans Rat.neg_lt_neg_iff.symm) ds d
        have hgreatest := extremeOf_eq (fun m q => decide (q ≤ m))
          (fun a b hab hba => Rat.le_antisymm (of_decide_eq_true hba) (of_decide_eq_true hab))
          (List.mem_map_of_mem hz) (List.forall_mem_map.mpr fun e he =>
            decide_eq_true (Rat.neg_le_neg_iff.mp (hle e he)))
        exact ⟨z, hbest, Option.some.inj (hgreatest.symm.trans h)⟩
  | sum =>
      rcases ds with _ | ⟨d, ds⟩
      · cases h
      · obtain ⟨z, hz, hzq⟩ := total_exact hp hsums
        refine ⟨z, ?_, hzq.trans (Option.some.inj h)⟩
        rw [apply, hz]
        rfl
  | average =>
      rcases ds with _ | ⟨d, ds⟩
      · cases h
      · obtain ⟨z, hz, hzq⟩ := total_exact hp hsums
        have hquotient := Option.some.inj h
        rw [← hzq, List.length_map] at hquotient
        rw [apply, hz, List.length_map]
        subst hquotient
        exact average_exact hp (Nat.succ_ne_zero ds.length) hcount hq

end FunctionId

end Reckoner
