/-
# What a literal means

Positional notation gives each digit its place: the last one in front of the
point stands for ones, one to the left of it for ten times as much, one to the
right for a tenth.

    positional "20.75"  =  2 · 10^1 + 0 · 10^0 + 7 · 10^-1 + 5 · 10^-2

The digits are read by repeated multiplication and the point is counted, which
comes to the same (`Spells.positional_eq`).  A literal is then rounded once, and
unless it is very long, that does not take it out of the range of exponents
(`Number.parse_literal`).  Zeros in front of it or behind it only change how many
digits there are (`Spells.padded`).
-/
import Reckoner.Precision
import Reckoner.Proofs.Operation.Exact
import Reckoner.Proofs.Operation.Reading

namespace Reckoner

/-- The number that digits denote if the first of them stands at the place `10^e`. -/
def placeValue (e : Int) : List Char → Rat
  | [] => 0
  | d :: ds => digitValue d * 10 ^ e + placeValue (e - 1) ds

/-- The number that the digits of a text denote, those behind its point standing for
tenths, hundredths and so on. -/
def positional (text : List Char) : Rat :=
  placeValue ((text.takeWhile isDigit).length - 1) (text.filter isDigit)

/-- `TrailingZeros cs tail`: behind `cs` there are only zeros, if necessary with a point
in front of them. -/
inductive TrailingZeros (cs : List Char) : List Char → Prop
  | none : TrailingZeros cs []
  | behind (k : Nat) : '.' ∈ cs → TrailingZeros cs (zeros k)
  | point (k : Nat) : '.' ∉ cs → TrailingZeros cs ('.' :: zeros (k + 1))

theorem length_zeros (k : Nat) : (zeros k).length = k := List.length_replicate

/-! ## The value of a run of digits -/

theorem digitsValue_cons (d : Char) (ds : List Char) :
    digitsValue (d :: ds) = digitValue d * pow10 ds.length + digitsValue ds := by
  have hcons : digitsValue (d :: ds) = Nat.ofDigitChars 10 ds (10 * 0 + digitValue d) :=
    Nat.ofDigitChars_cons
  rw [hcons, Nat.ofDigitChars_eq_ofDigitChars_zero, Nat.mul_zero, Nat.zero_add, Nat.mul_comm]
  rfl

theorem digitValue_lt {d : Char} (h : isDigit d = true) : digitValue d < 10 := by
  simp only [isDigit, Bool.and_eq_true, decide_eq_true_eq, Char.le_def, UInt32.le_iff_toNat_le] at h
  have hhigh : d.toNat ≤ 57 := h.2
  have hzero : '0'.toNat = 48 := rfl
  unfold digitValue
  omega

theorem digitsValue_lt {ds : List Char} (h : ∀ d ∈ ds, isDigit d = true) :
    digitsValue ds < pow10 ds.length := by
  induction ds with
  | nil => exact Nat.one_pos
  | cons d ds ih =>
      obtain ⟨hd, hds⟩ := List.forall_mem_cons.mp h
      have := Nat.mul_le_mul_right (pow10 ds.length) (Nat.le_of_lt_succ (digitValue_lt hd))
      have := ih hds
      rw [digitsValue_cons, List.length_cons, Nat.add_comm ds.length, pow10_add,
        show pow10 1 = 10 from rfl]
      omega

/-- All digits but the last stand for multiples of ten of its place. -/
theorem placeValue_eq (e : Int) (ds : List Char) :
    placeValue e ds = digitsValue ds * 10 ^ (e + 1 - ds.length) := by
  induction ds generalizing e with
  | nil => exact (Rat.zero_mul _).symm
  | cons d ds ih =>
      have hunit : e + 1 - ((d :: ds).length : Int) = e - ds.length := by
        rw [List.length_cons]
        omega
      have hscale : (10 : Rat) ^ e = (pow10 ds.length : Nat) * 10 ^ (e - ds.length) := by
        have hplaces : (e - (e - ds.length)).toNat = ds.length := by omega
        rw [ten_zpow_eq (show e - ds.length ≤ e by omega), hplaces]
      rw [placeValue, ih, hunit, digitsValue_cons, hscale, Int.sub_add_cancel]
      push_cast
      ring

namespace Spells

variable {cs : List Char} {m : Nat} {e : Int}

theorem positional_eq (h : Spells cs m e) : positional cs = (Decimal.mk false m e).toRat := by
  have hfilter : ∀ {ds : List Char}, (∀ d ∈ ds, isDigit d = true) → ds.filter isDigit = ds :=
    List.filter_eq_self.mpr
  have hpoint : ¬ isDigit '.' = true := by decide
  unfold positional
  cases h with
  | whole _ hds =>
      rw [(takeWhile_digits hds).1, hfilter hds, placeValue_eq]
      simp only [Decimal.toRat, Bool.false_eq_true, if_false]
      congr 2
      omega
  | @point ds fs _ hds _ hfs =>
      rw [(takeWhile_digits_point hds _).1, List.filter_append, List.filter_cons_of_neg hpoint,
        hfilter hds, hfilter hfs, placeValue_eq, List.length_append]
      simp only [Decimal.toRat, Bool.false_eq_true, if_false]
      congr 2
      omega

/-- A numeral has no more digits than characters, before the point and behind it. -/
theorem size_le (h : Spells cs m e) : m < pow10 cs.length ∧ -(cs.length : Int) ≤ e ∧ e ≤ 0 := by
  cases h with
  | whole _ hds => exact ⟨digitsValue_lt hds, by omega, le_rfl⟩
  | @point ds fs _ hds _ hfs =>
      have hlt := digitsValue_lt (List.forall_mem_append.mpr ⟨hds, hfs⟩)
      have hlength : (ds ++ fs).length ≤ (ds ++ '.' :: fs).length := by
        simp only [List.length_append, List.length_cons]
        omega
      refine ⟨Nat.lt_of_lt_of_le hlt (pow10_le_pow10 hlength), ?_, by omega⟩
      simp only [List.length_append, List.length_cons]
      omega

/-- Zeros in front of a numeral, and at its end, only change the number of digits. -/
theorem padded {tail : List Char} (h : Spells cs m e) (hz : TrailingZeros cs tail) (j : Nat) :
    ∃ k, Spells (zeros j ++ cs ++ tail) (m * pow10 k) (e - k) := by
  have hzeros : ∀ {k : Nat} {ds : List Char}, (∀ d ∈ ds, isDigit d = true) →
      ∀ d ∈ zeros k ++ ds, isDigit d = true :=
    fun hds => List.forall_mem_append.mpr ⟨isDigit_of_mem_zeros, hds⟩
  cases h with
  | whole hne hds =>
      have hpoint : '.' ∉ cs := fun hmem => ne_of_isDigit (hds _ hmem) (by decide) rfl
      have hne' : zeros j ++ cs ≠ [] := List.append_ne_nil_of_right_ne_nil _ hne
      cases hz with
      | none =>
          refine ⟨0, ?_⟩
          have := Spells.whole hne' (hzeros hds)
          rw [digitsValue_zeros_append] at this
          rwa [List.append_nil, pow10_eq, Nat.pow_zero, Nat.mul_one, Int.natCast_zero, Int.sub_zero]
      | behind k hmem => exact absurd hmem hpoint
      | point k =>
          have hfraction : zeros (k + 1) ≠ [] := List.cons_ne_nil _ _
          refine ⟨k + 1, ?_⟩
          have := Spells.point hne' (hzeros hds) hfraction isDigit_of_mem_zeros
          rwa [List.append_assoc (zeros j) cs (zeros (k + 1)), digitsValue_zeros_append,
            digitsValue_append_zeros, length_zeros, ← zero_sub] at this
  | @point ds fs hne hds hne' hfs =>
      have hne'' : zeros j ++ ds ≠ [] := List.append_ne_nil_of_right_ne_nil _ hne
      have hmem : '.' ∈ ds ++ '.' :: fs := List.mem_append_right _ List.mem_cons_self
      obtain ⟨k, rfl⟩ : ∃ k, tail = zeros k := by
        cases hz with
        | none => exact ⟨0, rfl⟩
        | behind k => exact ⟨k, rfl⟩
        | point k hpoint => exact absurd hmem hpoint
      refine ⟨k, ?_⟩
      have := Spells.point hne'' (hzeros hds) (List.append_ne_nil_of_left_ne_nil hne' (zeros k))
        (List.forall_mem_append.mpr ⟨hfs, isDigit_of_mem_zeros⟩)
      rw [List.append_assoc (zeros j) ds (fs ++ zeros k), digitsValue_zeros_append,
        ← List.append_assoc ds, digitsValue_append_zeros] at this
      rw [List.length_append, length_zeros, Nat.cast_add, neg_add, ← sub_eq_add_neg] at this
      simpa only [List.append_assoc, List.cons_append] using this

end Spells

/-! ## Reading a literal -/

/-- The leading digit of a numeral stands among its characters. -/
theorem Spells.magnitude_le {cs : List Char} {m : Nat} {e : Int} (h : Spells cs m e) :
    (Decimal.mk false m e).magnitude.natAbs ≤ cs.length := by
  obtain ⟨hm, hlow, hhigh⟩ := h.size_le
  obtain ⟨d, rest, rfl, -⟩ := h.exists_cons
  have hdigits := (digitCount_le_iff (Nat.succ_pos rest.length)).mpr hm
  have hpos := digitCount_pos m
  rw [List.length_cons] at hlow ⊢
  simp only [Decimal.magnitude, Decimal.digits]
  omega

/-- A literal is the number that its digits denote, rounded once.  The bound on its
length keeps it far from the ends of the range of exponents. -/
theorem Number.parse_literal (p : Precision) {text : String} {m : Nat} {e : Int}
    (h : Spells text.toList m e) (hlength : text.length ≤ 1000000000) :
    (Number.parse p.digits text).Gives (rounded p.digits (positional text.toList)) := by
  have hsize := h.magnitude_le
  rw [String.length_toList] at hsize
  have hrange : (Decimal.mk false m e).InRange := by
    intro _
    unfold exponentLimit
    omega
  have hlead : (leading (Decimal.mk false m e).toRat).natAbs ≤ 1000000000 := by
    by_cases hm : m = 0
    · rw [Decimal.toRat_of_zero hm, leading_zero]
      decide
    · rw [Decimal.leading_toRat hm]
      omega
  have hround := leading_rounded p.positive (Decimal.mk false m e).toRat
  rw [h.positional_eq]
  refine (parse_roundsOnce p.digits h hrange).gives_rounded p.positive ?_ ?_
  · unfold exponentLimit
    omega
  · unfold exponentLimit
    omega

/-- Zeros in front of a literal, and at its end, do not change what it is. -/
theorem Number.parse_padded (p : Precision) {text : String} {m : Nat} {e : Int}
    (h : Spells text.toList m e) {tail : List Char} (hz : TrailingZeros text.toList tail) (j : Nat)
    (hlength : (zeros j ++ text.toList ++ tail).length ≤ 1000000000) :
    (Number.parse p.digits (String.ofList (zeros j ++ text.toList ++ tail))).Gives
      (rounded p.digits (positional text.toList)) := by
  obtain ⟨k, hs⟩ := h.padded hz j
  have hsame : positional (zeros j ++ text.toList ++ tail) = positional text.toList := by
    rw [hs.positional_eq, h.positional_eq]
    exact Decimal.toRat_padded ⟨false, m, e⟩ k
  rw [← hsame]
  generalize zeros j ++ text.toList ++ tail = cs at hs hlength ⊢
  rw [← String.toList_ofList (l := cs)] at hs hlength ⊢
  rw [String.length_toList] at hlength
  rw [String.ofList_toList]
  exact parse_literal p hs hlength

/-- Rounding leaves a number as it is that has no more than `p` digits. -/
theorem rounded_natCast_mul {p n : Nat} (hp : 0 < p) (hn : n < 10 ^ p) (e : Int) :
    rounded p (n * 10 ^ e) = n * 10 ^ e := by
  have hrat : (Decimal.mk false n e).toRat = n * 10 ^ e := rfl
  rw [← hrat]
  refine Decimal.rounded_eq hp ((Decimal.significant_le_iff hp).mpr ⟨n, 0, hn, ?_⟩)
  exact (Nat.mul_one n).symm

end Reckoner
