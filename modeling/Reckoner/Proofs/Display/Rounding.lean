/-
# Displaying a rounded number

A display may ask for a number of significant digits, for a number of digits
behind the point, for both, or for none.  What it shows of a number `q` is
`shownValue s n q`: the number rounded to the first, and the result of that to
the second.

    asked for        what is shown
    nothing          q
    s                rounded s q
    n                roundedAt (-n) q
    s and n          roundedAt (-n) (rounded s q)

That number is written in plain notation unless the rounding has taken it above
the range of exponents, where the text is the name of an infinity
(`exists_represents`).  The number has no more digits than were asked for, and the
same display shows it as it is.

With both, the value is rounded twice, which is not always what a single rounding
at the coarser of the two places gives (`display_both`).
-/
import Reckoner.Proofs.Binary64
import Reckoner.Proofs.Decimal.Successive
import Reckoner.Proofs.Display.Plain
import Reckoner.Proofs.Sequencing

namespace Reckoner

namespace Display

variable {d : Display} {s n : Option Nat} {q r : Rat} {x y : Decimal}

/-! ## Numbers of digits -/

theorem count_eq_ok {name : String} {least n : Nat} {x : Binary64} :
    count name least x = .ok n ↔ x.toNat? = some n ∧ least ≤ n ∧ n ≤ most := by
  unfold count
  cases x.toNat? with
  | none => exact ⟨nofun, nofun⟩
  | some k =>
      simp only [Option.some.injEq]
      split
      · exact ⟨nofun, fun h => by omega⟩
      split
      · exact ⟨nofun, fun h => by omega⟩
      · exact ⟨fun h => by cases h; exact ⟨rfl, by omega, by omega⟩, fun h => h.1 ▸ rfl⟩

/-- `Asked least option k`: under an option nothing is asked for, or a natural number
of digits in range. -/
inductive Asked (least : Nat) : Option Binary64 → Option Nat → Prop
  | nothing : Asked least none none
  | digits {x : Binary64} {k : Nat} :
      x.value? = some (k : Rat) → least ≤ k → k ≤ most → Asked least (some x) (some k)

/-- `d.Asks s n`: the display asks for `s` significant digits and for `n` digits behind
the point, for each of them or not. -/
structure Asks (d : Display) (s n : Option Nat) : Prop where
  significant : Asked 1 d.significant s
  fraction : Asked 0 d.fraction n

/-! ## The number that is shown -/

/-- The number rounded to a number of significant digits, if there is one. -/
def toSignificant : Option Nat → Rat → Rat
  | none, q => q
  | some s, q => rounded s q

/-- The number rounded to a number of digits behind the point, if there is one. -/
def toFraction : Option Nat → Rat → Rat
  | none, q => q
  | some n, q => roundedAt (-n) q

/-- What is shown of a number. -/
def shownValue (s n : Option Nat) (q : Rat) : Rat := toFraction n (toSignificant s q)

theorem Asked.pos {o : Option Binary64} {s : Option Nat} (h : Asked 1 o s) : ∀ k ∈ s, 0 < k := by
  intro k hk
  cases h with
  | nothing => cases hk
  | digits _ hleast _ => exact Option.mem_some.mp hk ▸ hleast

theorem shownValue_mono (hs : ∀ k ∈ s, 0 < k) (h : q ≤ r) :
    shownValue s n q ≤ shownValue s n r := by
  have hsignificant : toSignificant s q ≤ toSignificant s r := by
    cases s with
    | none => exact h
    | some k => exact rounded_mono (hs k rfl) h
  cases n with
  | none => exact hsignificant
  | some k => exact roundedAt_mono _ hsignificant

theorem hasDigits_shownValue (hs : ∀ k ∈ s, 0 < k) (q : Rat) :
    ∀ k ∈ s, HasDigits k (shownValue s n q) := by
  rintro k rfl
  have hrounded := hasDigits_rounded (hs k rfl) q
  cases n with
  | none => exact hrounded
  | some j => exact hrounded.roundedAt (hs k rfl) _

/-- What is shown is a multiple of the last place behind the point. -/
theorem exists_shownValue_eq (s : Option Nat) (q : Rat) :
    ∀ k ∈ n, ∃ m : Int, shownValue s n q = m * 10 ^ (-(k : Int)) := by
  rintro k rfl
  exact ⟨_, rfl⟩

/-- What is shown needs no more rounding. -/
theorem shownValue_shownValue (hs : ∀ k ∈ s, 0 < k) (q : Rat) :
    shownValue s n (shownValue s n q) = shownValue s n q := by
  have hsignificant : toSignificant s (shownValue s n q) = shownValue s n q := by
    have hdigits := hasDigits_shownValue (n := n) hs q
    cases s with
    | none => rfl
    | some k => exact (hdigits k rfl).rounded_eq
  rw [shownValue, hsignificant]
  cases n with
  | none => rfl
  | some k => exact roundedAt_mul _ _

end Display

/-! ## Numbers within the range of exponents and above -/

/-- `a.Represents q`: the number is a decimal that denotes `q`, or an infinity where
`q` is above the range of exponents. -/
def Number.Represents (a : Number) (q : Rat) : Prop :=
  if exponentLimit < leading q then a = .infinite (decide (q < 0))
  else ∃ x : Decimal, a = .finite x ∧ x.InRange ∧ x.toRat = q

theorem Number.ne_zero_of_limit_lt {q : Rat} (h : exponentLimit < leading q) : q ≠ 0 := by
  rintro rfl
  rw [leading_zero] at h
  exact absurd h (by decide)

theorem Decimal.inRange_iff {x : Decimal} :
    x.InRange ↔ (leading x.toRat).natAbs ≤ Number.exponentLimit := by
  unfold InRange
  by_cases hx : x.coeff = 0
  · rw [toRat_of_zero hx, leading_zero]
    exact iff_of_true (fun hne => absurd hx hne) (by decide)
  · rw [leading_toRat hx]
    exact ⟨fun h => h hx, fun h _ => h⟩

namespace Number

variable {a : Number} {x : Decimal} {q : Rat}

theorem represents_finite (h : x.InRange) : (finite x).Represents x.toRat := by
  have hrange := Decimal.inRange_iff.mp h
  unfold Represents
  rw [if_neg (by omega)]
  exact ⟨x, rfl, h, rfl⟩

theorem represents_fit (h : -exponentLimit ≤ leading x.toRat) : (fit x).Represents x.toRat := by
  by_cases hlimit : exponentLimit < leading x.toRat
  · have hc : x.coeff ≠ 0 := mt Decimal.toRat_of_zero (ne_zero_of_limit_lt hlimit)
    have hsign : decide (x.toRat < 0) = x.negative := by
      rw [Bool.eq_iff_iff, decide_eq_true_iff]
      exact Decimal.toRat_neg_iff.trans (and_iff_left hc)
    rw [Represents, if_pos hlimit, hsign]
    rw [Decimal.leading_toRat hc] at hlimit
    rw [fit, if_neg hc, if_pos hlimit]
  · have hrange : x.InRange := Decimal.inRange_iff.mpr (by omega)
    rw [fit_of_inRange hrange, ← x.toRat_canonical]
    exact represents_finite (Decimal.inRange_canonical.mpr hrange)

/-- Numbers that represent one rational number have one text. -/
theorem Represents.plain_congr {b : Number} (ha : a.Represents q) (hb : b.Represents q) :
    Display.plain a = Display.plain b := by
  unfold Represents at ha hb
  split at ha
  · next hlimit =>
      rw [if_pos hlimit] at hb
      rw [ha, hb]
  · next hlimit =>
      rw [if_neg hlimit] at hb
      obtain ⟨x, rfl, -, hx⟩ := ha
      obtain ⟨y, rfl, -, hy⟩ := hb
      exact Decimal.plain_eq_plain_iff.mpr (hx.trans hy.symm)

end Number

/-- `Shows text q`: the text is that of `q` in plain notation, or the name of an infinity
where `q` is above the range of exponents. -/
def Shows (text : String) (q : Rat) : Prop :=
  if Number.exponentLimit < leading q then text = if q < 0 then "-Infinity" else "Infinity"
  else Denotes text q

theorem Number.Represents.shows {a : Number} {q : Rat} (h : a.Represents q) :
    Shows (Display.plain a) q := by
  unfold Represents at h
  unfold Shows
  split at h
  · next hlimit =>
      rw [if_pos hlimit, h]
      simp only [Display.plain, text, signedText, decide_eq_true_eq]
  · next hlimit =>
      rw [if_neg hlimit]
      obtain ⟨x, rfl, -, rfl⟩ := h
      exact x.denotes_plain

namespace Display

variable {d : Display} {s n : Option Nat} {x y : Decimal} {q r : Rat} {a : Number}

/-! ## What the display does -/

/-- A number of significant digits takes no number below the range. -/
theorem exists_roundSignificant {o : Option Binary64} (ho : Asked 1 o s) (hx : x.InRange) :
    ∃ a, roundSignificant (.finite x) o = .ok a ∧ a.Represents (toSignificant s x.toRat) := by
  cases ho with
  | nothing => exact ⟨_, rfl, Number.represents_finite hx⟩
  | @digits b k hvalue hleast hmost =>
      have hcount : count "significantDigits" 1 b = .ok k :=
        count_eq_ok.mpr ⟨Binary64.toNat?_eq_some_iff.mpr hvalue, hleast, hmost⟩
      have hround := Decimal.toRat_round_eq k x
      have hlow := (leading_rounded hleast x.toRat).1
      have hrange := Decimal.inRange_iff.mp hx
      refine ⟨.fit (x.round k), ?_, ?_⟩
      · simp only [roundSignificant, hcount]
        rfl
      · rw [toSignificant, ← hround]
        exact Number.represents_fit (by rw [hround]; omega)

/-- An infinity stays what it is, and that is what the number comes to as well: its
leading digit stands above the last place. -/
theorem exists_roundFraction {o : Option Binary64} (ho : Asked 0 o n) (ha : a.Represents q) :
    ∃ b, roundFraction a o = .ok b ∧ b.Represents (toFraction n q) := by
  cases ho with
  | nothing => exact ⟨a, rfl, ha⟩
  | @digits b k hvalue hleast hmost =>
      have hcount : count "maxFractionDigits" 0 b = .ok k :=
        count_eq_ok.mpr ⟨Binary64.toNat?_eq_some_iff.mpr hvalue, hleast, hmost⟩
      simp only [roundFraction, hcount, toFraction]
      unfold Number.Represents at ha
      split at ha
      · next hlimit =>
          subst ha
          have hunit : -(k : Int) ≤ leading q := by
            unfold Number.exponentLimit at hlimit
            omega
          have hlead := leading_le_leading_roundedAt (Number.ne_zero_of_limit_lt hlimit) hunit
          have hlimit' : Number.exponentLimit < leading (roundedAt (-k) q) := by omega
          have hsign := roundedAt_neg_iff (Number.ne_zero_of_limit_lt hlimit')
          refine ⟨_, rfl, ?_⟩
          rw [Number.Represents, if_pos hlimit', decide_eq_decide.mpr hsign]
      · next hlimit =>
          obtain ⟨x, rfl, hx, rfl⟩ := ha
          refine ⟨_, rfl, ?_⟩
          rw [← Decimal.toRat_roundAt]
          refine Number.represents_fit ?_
          rw [Decimal.toRat_roundAt]
          have hzero := leading_zero
          have hplace := le_leading_roundedAt (f := -k) (q := x.toRat)
          unfold Number.exponentLimit
          unfold most at hmost
          by_cases h0 : roundedAt (-k) x.toRat = 0
          · rw [h0, hzero]
            decide
          · have := hplace h0
            omega

/-- A finite number is displayed as the text of what is shown of it. -/
theorem exists_represents (hd : d.Asks s n) (hx : x.InRange) :
    ∃ a : Number, (Number.finite x).display d = .ok (plain a) ∧
      a.Represents (shownValue s n x.toRat) := by
  obtain ⟨a, ha, hrepresents⟩ := exists_roundSignificant hd.significant hx
  obtain ⟨b, hb, hshown⟩ := exists_roundFraction hd.fraction hrepresents
  have hround : d.round (.finite x) = .ok b := by
    unfold round
    rw [ha]
    exact hb
  refine ⟨b, ?_, hshown⟩
  simp only [Number.display, Number.isFinite, if_true, hround]

end Display

/-! ## What a text tells -/

namespace Shows

variable {text text' : String} {q r : Rat}

theorem limit_of_denotes (h : Shows text q) (hr : Denotes text r) :
    ¬Number.exponentLimit < leading q := by
  intro hlimit
  rw [Shows, if_pos hlimit] at h
  split at h
  · exact hr.ne_infinity.2 h
  · exact hr.ne_infinity.1 h

theorem denotes (h : Shows text q) (hlimit : leading q ≤ Number.exponentLimit) :
    Denotes text q := by
  rwa [Shows, if_neg (not_lt.mpr hlimit)] at h

/-- A text in plain notation is that of the number shown. -/
theorem eq_of_denotes (h : Shows text q) (hr : Denotes text r) : q = r := by
  have hlimit := h.limit_of_denotes hr
  rw [Shows, if_neg hlimit] at h
  rw [← h.value, ← hr.value]

theorem eq_infinity_iff (h : Shows text q) :
    text = "Infinity" ↔ Number.exponentLimit < leading q ∧ 0 < q := by
  unfold Shows at h
  split at h
  · next hlimit =>
      have hne := Number.ne_zero_of_limit_lt hlimit
      subst h
      split
      · next hneg => exact iff_of_false (by decide) fun hpos => by linarith [hpos.2]
      · next hneg => exact iff_of_true rfl ⟨hlimit, lt_of_le_of_ne (not_lt.mp hneg) hne.symm⟩
  · next hlimit => exact iff_of_false h.ne_infinity.1 fun habove => hlimit habove.1

theorem eq_minus_infinity_iff (h : Shows text q) :
    text = "-Infinity" ↔ Number.exponentLimit < leading q ∧ q < 0 := by
  unfold Shows at h
  split at h
  · next hlimit =>
      subst h
      split
      · next hneg => exact iff_of_true rfl ⟨hlimit, hneg⟩
      · next hneg => exact iff_of_false (by decide) fun habove => hneg habove.2
  · next hlimit => exact iff_of_false h.ne_infinity.2 fun habove => hlimit habove.1

/-- Of a larger number no smaller one is shown, the infinities at either end. -/
theorem mono (h : Shows text q) (h' : Shows text' r) (hle : q ≤ r) :
    (∀ a b, Denotes text a → Denotes text' b → a ≤ b) ∧
      (text = "Infinity" → text' = "Infinity") ∧ (text' = "-Infinity" → text = "-Infinity") := by
  refine ⟨fun a b ha hb => ?_, ?_, ?_⟩
  · rwa [← h.eq_of_denotes ha, ← h'.eq_of_denotes hb]
  · rw [h.eq_infinity_iff, h'.eq_infinity_iff]
    rintro ⟨hlimit, hpos⟩
    exact ⟨hlimit.trans_le (leading_mono hpos hle), hpos.trans_le hle⟩
  · rw [h.eq_minus_infinity_iff, h'.eq_minus_infinity_iff]
    rintro ⟨hlimit, hneg⟩
    have hlead := leading_mono (neg_pos.mpr hneg) (neg_le_neg hle)
    rw [leading_neg, leading_neg] at hlead
    exact ⟨hlimit.trans_le hlead, hle.trans_lt hneg⟩

end Shows

namespace Display

variable {d : Display} {s n : Option Nat} {x : Decimal}

/-- The text that a display gives for a value keeps to what it asks for. -/
structure KeepsTo (d : Display) (s n : Option Nat) (x : Decimal) (text : String) : Prop where
  /-- It is the text of the number shown, or the name of an infinity. -/
  shows : Shows text (shownValue s n x.toRat)
  /-- That number has no more significant digits than were asked for. -/
  digits : ∀ k ∈ s, HasDigits k (shownValue s n x.toRat)
  /-- It has no more digits behind the point than were asked for. -/
  places : ∀ k ∈ n, ∃ m : Int, shownValue s n x.toRat = m * 10 ^ (-(k : Int))
  /-- Where only significant digits are asked for, it is the value rounded to them. -/
  significantOnly : ∀ k, s = some k → n = none → shownValue s n x.toRat = rounded k x.toRat
  /-- Where only digits behind the point are asked for, it is the value rounded there. -/
  fractionOnly : ∀ k, s = none → n = some k → shownValue s n x.toRat = roundedAt (-k) x.toRat
  /-- What the text denotes is displayed as the same text. -/
  again : ∀ y : Decimal, Denotes text y.toRat → (Number.finite y).display d = .ok text
  /-- The text of a larger value denotes no smaller number, an infinity being beyond all
  numbers. -/
  mono : ∀ (y : Decimal) (text' : String), y.InRange → x.toRat ≤ y.toRat →
    (Number.finite y).display d = .ok text' →
    (∀ a b, Denotes text a → Denotes text' b → a ≤ b) ∧
      (text = "Infinity" → text' = "Infinity") ∧ (text' = "-Infinity" → text = "-Infinity")

/-- Every finite number is displayed, and the display keeps to what it asks for. -/
theorem display_keepsTo (hd : d.Asks s n) (hx : x.InRange) :
    ∃ text, (Number.finite x).display d = .ok text ∧ d.KeepsTo s n x text := by
  have hs := hd.significant.pos
  obtain ⟨a, ha, hshown⟩ := exists_represents hd hx
  refine ⟨plain a, ha, hshown.shows, hasDigits_shownValue hs _, exists_shownValue_eq s _, ?_, ?_,
    ?_, ?_⟩
  · rintro k rfl rfl
    rfl
  · rintro k rfl rfl
    rfl
  · intro y hy
    -- what is denoted is what is shown, within the range, and nothing is left to round
    have hvalue := hshown.shows.eq_of_denotes hy
    have hlimit := hshown.shows.limit_of_denotes hy
    have hrange : y.InRange := by
      rw [Number.Represents, if_neg hlimit] at hshown
      obtain ⟨z, -, hz, hzq⟩ := hshown
      exact Decimal.inRange_of_toRat_eq (hvalue.symm.trans hzq.symm) hz
    obtain ⟨b, hb, hagain⟩ := exists_represents hd hrange
    rw [← hvalue, shownValue_shownValue hs] at hagain
    rw [hb, hagain.plain_congr hshown]
  · intro y text' hy hle htext'
    obtain ⟨b, hb, hshown'⟩ := exists_represents hd hy
    obtain rfl : plain b = text' := Except.ok.inj (hb.symm.trans htext')
    exact hshown.shows.mono hshown'.shows (shownValue_mono hs hle)

/-- All four clauses at once: two limits, a carry that makes one digit more. -/
theorem display_keepsTo_of_both :
    (⟨false, 9996, -3⟩ : Decimal).InRange ∧
      ∃ text, (Number.finite ⟨false, 9996, -3⟩).display
          ⟨some (Binary64.ofNat 3), some (Binary64.ofNat 1)⟩ = .ok text ∧
        KeepsTo ⟨some (Binary64.ofNat 3), some (Binary64.ofNat 1)⟩ (some 3) (some 1)
          ⟨false, 9996, -3⟩ text :=
  ⟨by decide +kernel, display_keepsTo
    ⟨.digits (Binary64.value?_ofNat (by decide)) (by decide) (by decide),
      .digits (Binary64.value?_ofNat (by decide)) (by decide) (by decide)⟩ (by decide +kernel)⟩

/-- At the upper end of the range a carry leaves it, and the text denotes no number. -/
theorem largest_displayed_as_infinity :
    (⟨false, 99, 8999999999999999⟩ : Decimal).InRange ∧
      (Number.finite ⟨false, 99, 8999999999999999⟩).display
        ⟨some (Binary64.ofNat 1), none⟩ = .ok "Infinity" ∧
      ∀ q, ¬Denotes "Infinity" q :=
  ⟨by decide +kernel, toOption_eq_some.mp (by decide +kernel), fun _ h => h.ne_infinity.1 rfl⟩

/-! ## Both limits -/

/-- With both limits the value is rounded at the last of the `s` digits, at `10^e`, and
then at the last place, at `10^f`; that is what the text denotes, if it is within the
range of exponents.  It is a single rounding at the coarser of the two unless the first of
them reaches a half of the second. -/
theorem display_both {s n : Nat} (hd : d.Asks (some s) (some n)) (hx : x.InRange) {q : Rat}
    (hq : x.toRat = q) {e f : Int} (he : e = leading q - s + 1) (hf : f = -n) :
    ∃ text, (Number.finite x).display d = .ok text ∧
      (leading (roundedAt f (roundedAt e q)) ≤ Number.exponentLimit →
        Denotes text (roundedAt f (roundedAt e q))) ∧
      (¬(e < f ∧ ReachesHalf e f q) →
        roundedAt f (roundedAt e q) = roundedAt (max e f) q ∧
          |roundedAt f (roundedAt e q) - q| ≤ 10 ^ max e f / 2) ∧
      (e < f → ReachesHalf e f q →
        roundedAt f (roundedAt e q) = roundedAt f q + (if q < 0 then -10 ^ f else 10 ^ f) ∧
          10 ^ f / 2 < |roundedAt f (roundedAt e q) - q| ∧
          |roundedAt f (roundedAt e q) - q| ≤ 10 ^ f / 2 + 10 ^ e / 2) := by
  subst hq he hf
  obtain ⟨a, ha, hshown⟩ := exists_represents hd hx
  refine ⟨plain a, ha, hshown.shows.denotes, fun hreach => ?_,
    roundedAt_roundedAt_of_reachesHalf⟩
  generalize leading x.toRat - s + 1 = e at hreach ⊢
  generalize (-n : Int) = f at hreach ⊢
  have honce : roundedAt f (roundedAt e x.toRat) = roundedAt (max e f) x.toRat := by
    rcases le_or_gt f e with hle | hlt
    · rw [max_eq_left hle]
      exact roundedAt_of_le hle _
    · rw [max_eq_right hlt.le, roundedAt_roundedAt hlt fun hr => hreach ⟨hlt, hr⟩]
  rw [honce]
  exact ⟨rfl, abs_roundedAt_sub_le _ _⟩

theorem toRat_belowHalf : (⟨false, 449, -4⟩ : Decimal).toRat = 449 / 10000 := by
  norm_num [Decimal.toRat]

theorem leading_belowHalf : leading (449 / 10000) = -2 :=
  leading_eq (by norm_num) (by norm_num)

theorem roundedAt_belowHalf : roundedAt (-2) (449 / 10000) = 4 / 100 := by
  rw [roundedAt_eq (n := 4) (by norm_num) (by norm_num) (by norm_num)]
  norm_num

/-- To two digits `0.0449` is `0.045`, a half of the last place that is asked for. -/
theorem reachesHalf_belowHalf : ReachesHalf (-3) (-2) (449 / 10000) :=
  ⟨4, by norm_num, by norm_num⟩

theorem roundedAt_twice_belowHalf : roundedAt (-2) (roundedAt (-3) (449 / 10000)) = 5 / 100 := by
  rw [(roundedAt_roundedAt_of_reachesHalf (by decide) reachesHalf_belowHalf).1,
    roundedAt_belowHalf]
  norm_num

/-- So it is shown as `0.05`. -/
theorem display_both_of_belowHalf :
    (⟨false, 449, -4⟩ : Decimal).InRange ∧ ∃ text,
      (Number.finite ⟨false, 449, -4⟩).display
        ⟨some (Binary64.ofNat 2), some (Binary64.ofNat 2)⟩ = .ok text ∧
      Denotes text (5 / 100) := by
  have hrange : (⟨false, 449, -4⟩ : Decimal).InRange := by decide +kernel
  obtain ⟨text, htext, hdenotes, -⟩ := display_both (s := 2) (n := 2) (e := -3) (f := -2)
    (d := ⟨some (Binary64.ofNat 2), some (Binary64.ofNat 2)⟩)
    ⟨.digits (Binary64.value?_ofNat (by decide)) (by decide) (by decide),
      .digits (Binary64.value?_ofNat (by decide)) (by decide) (by decide)⟩
    hrange toRat_belowHalf (by rw [leading_belowHalf]; rfl) rfl
  rw [roundedAt_twice_belowHalf, leading_eq (e := -2) (by norm_num) (by norm_num)] at hdenotes
  exact ⟨hrange, text, htext, hdenotes (by decide)⟩

/-- A single rounding of `0.0449` at the coarser place gives `0.04`, and what is shown is
farther from the value than half of that place. -/
theorem both_rounds_twice :
    (Number.finite ⟨false, 449, -4⟩).display
        ⟨some (Binary64.ofNat 2), some (Binary64.ofNat 2)⟩ = .ok "0.05" ∧
      signedPositional "0.05".toList = 5 / 100 ∧
      roundedAt (max (leading (449 / 10000) - 2 + 1) (-2)) (449 / 10000) = 4 / 100 ∧
      (10 : Rat) ^ max (leading (449 / 10000) - 2 + 1) (-2) / 2 < |5 / 100 - 449 / 10000| := by
  have hplace : max (leading (449 / 10000) - 2 + 1) (-2) = -2 := by
    rw [leading_belowHalf]
    rfl
  have htext : (⟨false, 5, -2⟩ : Decimal).plain = "0.05" := by decide +kernel
  have hvalue := (Decimal.denotes_plain ⟨false, 5, -2⟩).value
  rw [htext] at hvalue
  refine ⟨toOption_eq_some.mp (by decide +kernel), ?_, ?_, ?_⟩
  · rw [hvalue]
    norm_num [Decimal.toRat]
  · rw [hplace, roundedAt_belowHalf]
  · rw [hplace]
    norm_num [abs_of_pos]

end Display

end Reckoner
