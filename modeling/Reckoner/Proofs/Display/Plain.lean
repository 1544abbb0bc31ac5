/-
# The text of a number

A number has one text in plain notation, which is a sign, digits, and perhaps a
point with digits behind it:

    -? (0 | [1-9][0-9]*) (. [0-9]* [1-9])?

How the point falls decides what begins and ends the two runs of digits:

    the point falls      in front of it               behind it
    behind the digits    the digits, and zeros        nothing
    among the digits     the digits up to it          the others
    before the digits    0                            zeros, and the digits

Every run of digits is that of the canonical coefficient, which has no zero at
its end, nor one in front unless it is zero itself (`denotes_plain`).  And since
decimals that denote one number have one canonical form, they have one text
(`plain_eq_plain_iff`).
-/
import Reckoner.Display
import Reckoner.Proofs.Operation.Literal

namespace Reckoner

/-! ## The form of a text -/

/-- The digits in front of the point: a zero, or digits that do not begin with one. -/
inductive WholeForm : List Char → Prop
  | zero : WholeForm ['0']
  | digits {ds : List Char} :
      ds ≠ [] → (∀ c ∈ ds, isDigit c = true) → ds.head? ≠ some '0' → WholeForm ds

/-- What stands behind them: nothing, or a point and digits that do not end in zero. -/
inductive FractionForm : List Char → Prop
  | none : FractionForm []
  | digits {ds : List Char} :
      ds ≠ [] → (∀ c ∈ ds, isDigit c = true) → ds.getLast? ≠ some '0' → FractionForm ('.' :: ds)

/-- A number without a sign. -/
def MagnitudeForm (cs : List Char) : Prop :=
  ∃ whole fraction, cs = whole ++ fraction ∧ WholeForm whole ∧ FractionForm fraction

/-- A number, a minus sign perhaps in front of it. -/
inductive PlainForm : List Char → Prop
  | magnitude {cs : List Char} : MagnitudeForm cs → PlainForm cs
  | minus {cs : List Char} : MagnitudeForm cs → PlainForm ('-' :: cs)

/-- The number that a text denotes by its digits and its sign. -/
def signedPositional : List Char → Rat
  | '-' :: cs => -positional cs
  | cs => positional cs

/-- `Denotes text q`: the text is in plain notation, and it is that of `q`.  Only
numbers below zero have a sign. -/
structure Denotes (text : String) (q : Rat) : Prop where
  form : PlainForm text.toList
  sign : text.toList.head? = some '-' ↔ q < 0
  value : signedPositional text.toList = q

theorem MagnitudeForm.exists_cons {cs : List Char} (h : MagnitudeForm cs) :
    ∃ d rest, cs = d :: rest ∧ isDigit d = true := by
  obtain ⟨whole, fraction, rfl, hwhole, -⟩ := h
  cases hwhole with
  | zero => exact ⟨'0', fraction, rfl, by decide⟩
  | digits hne hds _ =>
      obtain ⟨d, rest, rfl⟩ := List.exists_cons_of_ne_nil hne
      exact ⟨d, rest ++ fraction, rfl, hds d List.mem_cons_self⟩

/-- A number begins with a digit, or with a minus sign and a digit. -/
theorem PlainForm.begins {cs : List Char} (h : PlainForm cs) :
    ∃ d rest, (cs = d :: rest ∨ cs = '-' :: d :: rest) ∧ isDigit d = true := by
  cases h with
  | magnitude h =>
      obtain ⟨d, rest, rfl, hd⟩ := h.exists_cons
      exact ⟨d, rest, Or.inl rfl, hd⟩
  | minus h =>
      obtain ⟨d, rest, rfl, hd⟩ := h.exists_cons
      exact ⟨d, rest, Or.inr rfl, hd⟩

/-- The name of an infinity is not the text of a number. -/
theorem Denotes.ne_infinity {text : String} {q : Rat} (h : Denotes text q) :
    text ≠ "Infinity" ∧ text ≠ "-Infinity" := by
  obtain ⟨d, rest, hcs, hd⟩ := h.form.begins
  constructor
  all_goals
    rintro rfl
    rcases hcs with hcs | hcs <;> cases hcs <;> cases hd

/-! ## The digits of a coefficient -/

theorem digitChar_ne_zero {n : Nat} (h0 : n ≠ 0) (h : n < 10) : n.digitChar ≠ '0' := by
  intro heq
  have hvalue := Nat.toNat_digitChar_of_lt_ten h
  rw [heq] at hvalue
  have : '0'.toNat = 48 := rfl
  omega

/-- A number that is not zero has no zero in front. -/
theorem head?_digitChars {n : Nat} (h : n ≠ 0) : (digitChars n).head? ≠ some '0' := by
  unfold digitChars
  induction n using Nat.strongRecOn with
  | ind n ih =>
      rcases Nat.lt_or_ge n 10 with hlt | hge
      · rw [Nat.toDigits_of_lt_base hlt]
        exact fun heq => digitChar_ne_zero h hlt (Option.some.inj heq)
      · rw [Nat.toDigits_of_base_le (by decide) hge,
          List.head?_append_of_ne_nil _ Nat.toDigits_ne_nil]
        exact ih (n / 10) (by omega) (by omega)

/-- A number that is no multiple of ten has no zero at its end. -/
theorem getLast?_digitChars {n : Nat} (h : n % 10 ≠ 0) : (digitChars n).getLast? ≠ some '0' := by
  have hlast : (digitChars n).getLast? = some (n % 10).digitChar := by
    unfold digitChars
    rcases Nat.lt_or_ge n 10 with hlt | hge
    · rw [Nat.toDigits_of_lt_base hlt, Nat.mod_eq_of_lt hlt]
      rfl
    · rw [Nat.toDigits_of_base_le (by decide) hge, List.getLast?_concat]
  rw [hlast]
  exact fun heq => digitChar_ne_zero h (Nat.mod_lt n (by decide)) (Option.some.inj heq)

/-! ## Where the point falls -/

theorem magnitudeForm_placePoint {ds : List Char} (hne : ds ≠ [])
    (hds : ∀ c ∈ ds, isDigit c = true) (hhead : ds.head? ≠ some '0')
    (hlast : ds.getLast? ≠ some '0') (e : Int) : MagnitudeForm (placePoint ds e) := by
  unfold placePoint
  dsimp only
  split
  · refine ⟨ds ++ zeros e.toNat, [], (List.append_nil _).symm, .digits ?_ ?_ ?_, .none⟩
    · exact List.append_ne_nil_of_left_ne_nil hne _
    · exact List.forall_mem_append.mpr ⟨hds, isDigit_of_mem_zeros⟩
    · rwa [List.head?_append_of_ne_nil _ hne]
  · next he =>
      obtain ⟨behind, hbehind⟩ : ∃ k, (-e).toNat = k := ⟨_, rfl⟩
      rw [hbehind]
      split
      · next hlt =>
          refine ⟨ds.take (ds.length - behind), _, rfl, .digits ?_ ?_ ?_, .digits ?_ ?_ ?_⟩
          · refine List.ne_nil_of_length_pos ?_
            rw [List.length_take]
            omega
          · exact fun c hc => hds c (List.mem_of_mem_take hc)
          · rwa [List.head?_take, if_neg (by omega)]
          · refine List.ne_nil_of_length_pos ?_
            rw [List.length_drop]
            omega
          · exact fun c hc => hds c (List.mem_of_mem_drop hc)
          · rwa [List.getLast?_drop, if_neg (by omega)]
      · refine ⟨['0'], '.' :: (zeros (behind - ds.length) ++ ds), rfl, .zero, .digits ?_ ?_ ?_⟩
        · exact List.append_ne_nil_of_right_ne_nil _ hne
        · exact List.forall_mem_append.mpr ⟨isDigit_of_mem_zeros, hds⟩
        · rwa [List.getLast?_append_of_ne_nil _ hne]

namespace Decimal

variable {x y : Decimal}

theorem magnitudeForm_plainMagnitude (x : Decimal) : MagnitudeForm x.plainMagnitude := by
  by_cases h : x.coeff = 0
  · have hzero : digitChars 0 = ['0'] := Nat.toDigits_of_lt_base (by decide)
    refine ⟨['0'], [], ?_, .zero, .none⟩
    unfold plainMagnitude
    rw [canonical_of_zero h]
    dsimp only
    rw [hzero]
    rfl
  · obtain ⟨-, -, -, -, hmod⟩ := canonical_spec h
    have hne : x.canonical.coeff ≠ 0 := fun h0 => hmod (by rw [h0])
    exact magnitudeForm_placePoint Nat.toDigits_ne_nil isDigit_of_mem_digitChars
      (head?_digitChars hne) (getLast?_digitChars hmod) _

/-! ## The text of a decimal -/

theorem toRat_neg_iff : x.toRat < 0 ↔ x.negative = true ∧ x.coeff ≠ 0 := by
  by_cases hx : x.coeff = 0
  · rw [toRat_of_zero hx]
    exact iff_of_false (lt_irrefl 0) fun h => h.2 hx
  · have hpos := toRat_abs_pos hx
    rw [toRat_abs x, and_iff_left hx]
    cases x.negative
    · exact iff_of_false (not_lt.mpr hpos.le) Bool.false_ne_true
    · exact iff_of_true (neg_neg_of_pos hpos) rfl

theorem plain_eq (x : Decimal) :
    x.plain = String.ofList
      (if x.toRat < 0 then '-' :: x.plainMagnitude else x.plainMagnitude) := by
  unfold plain
  congr 1
  refine if_congr ?_ rfl rfl
  rw [toRat_neg_iff, Bool.and_eq_true, decide_eq_true_eq]

theorem positional_plainMagnitude (x : Decimal) : positional x.plainMagnitude = |x.toRat| := by
  have hvalue : positional x.plainMagnitude = x.readBack.toRat :=
    (spells_plainMagnitude x).positional_eq
  have hnonneg : 0 ≤ x.readBack.toRat := toRat_abs_nonneg x.readBack
  rw [hvalue, toRat_readBack x]
  split
  · rw [abs_neg, abs_of_nonneg hnonneg]
  · rw [abs_of_nonneg hnonneg]

theorem denotes_plain (x : Decimal) : Denotes x.plain x.toRat := by
  have hform := magnitudeForm_plainMagnitude x
  have hvalue := positional_plainMagnitude x
  rw [plain_eq]
  split
  · next hneg =>
      refine ⟨?_, ?_, ?_⟩ <;> rw [String.toList_ofList]
      · exact .minus hform
      · exact iff_of_true rfl hneg
      · rw [signedPositional, hvalue, abs_of_neg hneg, neg_neg]
  · next hnonneg =>
      -- the magnitude begins with a digit, so there is no sign
      obtain ⟨d, rest, hcs, hd⟩ := (spells_plainMagnitude x).exists_cons
      have hminus : d ≠ '-' := ne_of_isDigit hd (by decide)
      refine ⟨?_, ?_, ?_⟩ <;> rw [String.toList_ofList]
      · exact .magnitude hform
      · rw [hcs]
        exact iff_of_false (fun h => hminus (Option.some.inj h)) hnonneg
      · rw [← abs_of_nonneg (not_lt.mp hnonneg), ← hvalue, hcs,
          signedPositional.eq_2 _ fun cs heq => hminus (List.cons.inj heq).1]

/-! ## One text for one number -/

/-- Decimals that denote one number, which is not zero, differ in the zeros at the end
of their coefficients. -/
theorem canonical_congr (h : x.toRat = y.toRat) (hx : x.coeff ≠ 0) :
    x.canonical.coeff = y.canonical.coeff ∧ x.canonical.exp = y.canonical.exp := by
  have hy : y.coeff ≠ 0 := mt toRat_eq_zero_iff.mpr (h ▸ mt toRat_eq_zero_iff.mp hx)
  obtain ⟨a, hxc, hxe, -, hxmod⟩ := canonical_spec hx
  obtain ⟨b, hyc, hye, -, hymod⟩ := canonical_spec hy
  obtain ⟨j, k, hc, he⟩ := exists_padded_of_toRat_eq h
  simp only [padded] at hc he
  rw [hxc, hyc, Nat.mul_assoc, Nat.mul_assoc, ← pow10_add, ← pow10_add] at hc
  have hcoeff : x.canonical.coeff = y.canonical.coeff :=
    Nat.le_antisymm (le_of_mul_pow10_eq hxmod hc) (le_of_mul_pow10_eq hymod hc.symm)
  have hpos : 0 < y.canonical.coeff := Nat.pos_of_ne_zero fun h0 => hymod (by rw [h0])
  rw [hcoeff] at hc
  have hzeros : a + j = b + k :=
    Nat.pow_right_injective (by decide) (Nat.eq_of_mul_eq_mul_left hpos hc)
  exact ⟨hcoeff, by omega⟩

theorem plainMagnitude_congr (h : x.toRat = y.toRat) : x.plainMagnitude = y.plainMagnitude := by
  unfold plainMagnitude
  dsimp only
  by_cases hx : x.coeff = 0
  · have hy : y.coeff = 0 := toRat_eq_zero_iff.mp (h ▸ toRat_of_zero hx)
    rw [canonical_of_zero hx, canonical_of_zero hy]
  · rw [(canonical_congr h hx).1, (canonical_congr h hx).2]

/-- Numbers are equal if their texts are, and their texts are equal if they are. -/
theorem plain_eq_plain_iff : x.plain = y.plain ↔ x.toRat = y.toRat := by
  constructor
  · intro h
    rw [← (denotes_plain x).value, ← (denotes_plain y).value, h]
  · intro h
    rw [plain_eq, plain_eq, plainMagnitude_congr h, h]

end Decimal

/-! ## Display without options -/

/-- Where no number of digits is asked for, a finite number has exactly one text, and
shares it with the decimals that denote the same number. -/
theorem Number.display_canonical (x : Decimal) :
    ∃ text, (finite x).display {} = .ok text ∧ Denotes text x.toRat ∧
      ∀ y : Decimal, (finite y).display {} = .ok text ↔ y.toRat = x.toRat := by
  refine ⟨x.plain, rfl, x.denotes_plain, fun y => ?_⟩
  rw [← Decimal.plain_eq_plain_iff]
  exact ⟨fun h => Except.ok.inj h, fun h => congrArg Except.ok h⟩

end Reckoner
