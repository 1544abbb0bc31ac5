/-
# Displayed numbers are read back

A number that an evaluation gives can be displayed, and evaluating what is
displayed gives the number again.  Four things have to fit together:

    the display    plain notation of all digits              (`spells_plainMagnitude`)
    the lexer      one numeral, perhaps a minus before it    (`lexFrom_of_spells`)
    the numeral    rounded, which changes nothing            (`parse_plainMagnitude`)
    the minus      applied to the numeral, whatever binds
                   tighter than it in the style

The third rests on the number having at most as many digits as the precision,
and that is so because an evaluation gave it.  The one thing that does not come
back is the sign of a zero, which the display leaves out.
-/
import Reckoner.Display
import Reckoner.Engine
import Reckoner.Proofs.Evaluation.Digits
import Reckoner.Proofs.Operation.Reading
import Reckoner.Proofs.Token.Numeral

namespace Reckoner

section

variable {c : Catalog} {n : Numerics} {width : Nat}

/-! ## A numeral, and a minus before it -/

theorem Evaluation.ofTokens_literal {text : String} {start stop : Int} {x : Number}
    (h : Number.parse n.precision text = .ok x) :
    (Evaluation.ofTokens c n width [⟨.literal, text, start, stop⟩]).result = .ok x := by
  have hl : Leads c n (Moment.start [⟨.literal, text, start, stop⟩])
      ⟨⟨⟨[x], []⟩, [], .operand⟩, []⟩ := .step (.literal rfl nofun h) (.refl _)
  rw [hl.ofTokens_eq]

theorem Preset.findOperator?_minus (style : Style) :
    ∃ k, (Preset.catalog style).findOperator? "-" .unary = some (negate k) := by
  cases style
  · exact ⟨3, rfl⟩
  · exact ⟨5, rfl⟩

theorem Evaluation.ofTokens_minus {style : Style} {text : String} {start stop start' stop' : Int}
    {x : Number} (h : Number.parse n.precision text = .ok x) :
    (Evaluation.ofTokens (Preset.catalog style) n width
      [⟨.symbol .operator, "-", start, stop⟩, ⟨.literal, text, start', stop'⟩]).result =
      .ok x.neg := by
  obtain ⟨k, hk⟩ := Preset.findOperator?_minus style
  -- nothing follows the numeral, so the minus is due whatever its precedence `k` is
  have hl : Leads (Preset.catalog style) n
      (Moment.start [⟨.symbol .operator, "-", start, stop⟩, ⟨.literal, text, start', stop'⟩])
      ⟨⟨⟨[x.neg], [⟨.operator (Preset.negate k), [x], x.neg, start⟩]⟩, [], .operand⟩, []⟩ :=
    .step (.unary rfl nofun hk) <| .step (.literal rfl nofun h) <|
      .step (.apply rfl (Work.applyOperator_eq_ok.mpr ⟨Nat.le_refl _, x.neg, rfl, rfl⟩)) (.refl _)
  rw [hl.ofTokens_eq]

end

/-! ## A number in plain notation -/

/-- What comes of evaluating the plain notation of a number. -/
def Decimal.reread (x : Decimal) : Decimal := if x.coeff = 0 then zero else x.canonical

namespace Decimal

variable {x : Decimal}

theorem toRat_reread (x : Decimal) : x.reread.toRat = x.toRat := by
  unfold reread
  split
  · next hx =>
      rw [toRat_of_zero hx]
      exact toRat_of_zero rfl
  · exact x.toRat_canonical

theorem canonical_readBack (x : Decimal) : x.readBack.canonical = x.canonical.abs := by
  have hvalue : x.readBack.toRat = x.abs.toRat := by
    rw [readBack, toRat_padded, ← canonical_abs, toRat_canonical]
  rw [← canonical_abs]
  exact canonical_eq_of_toRat_eq rfl hvalue

/-- The notation has a sign exactly where the number that is read needs one. -/
theorem reread_eq (x : Decimal) :
    x.reread = if x.negative && x.coeff ≠ 0 then x.canonical.abs.neg else x.canonical.abs := by
  have hsign := x.negative_canonical
  unfold reread
  by_cases hx : x.coeff = 0
  · simp only [hx, canonical_of_zero hx, if_true, ne_eq, not_true_eq_false, decide_false,
      Bool.and_false, Bool.false_eq_true, if_false]
    rfl
  · simp only [hx, if_false, ne_eq, not_false_eq_true, decide_true, Bool.and_true, ← hsign]
    generalize x.canonical = y
    obtain ⟨negative, c, e⟩ := y
    cases negative
    · rfl
    · rfl

end Decimal

theorem Evaluation.ofSource_plain {p : Nat} (hp : 0 < p) (draws : Nat → Decimal) (style : Style)
    {x : Decimal} (h : x.significant ≤ p) (hr : x.canonical.InRange) :
    (Evaluation.ofSource (Preset.catalog style) ⟨p, draws⟩ x.plain).result =
      .ok (.finite x.reread) := by
  have hparse := Number.parse_plainMagnitude hp h hr
  rw [Decimal.canonical_readBack] at hparse
  have hspells := Decimal.spells_plainMagnitude x
  rw [Decimal.reread_eq]
  unfold ofSource Catalog.lex Decimal.plain
  rw [String.toList_ofList, show (Preset.catalog style).symbols = Preset.symbols from rfl]
  split
  · rw [Token.lexFrom_minus, Token.lexFrom_of_spells _ _ hspells]
    exact Evaluation.ofTokens_minus (n := ⟨p, draws⟩) hparse
  · rw [Token.lexFrom_of_spells _ _ hspells]
    exact Evaluation.ofTokens_literal (n := ⟨p, draws⟩) hparse

/-- A value that an engine of either style gives at a precision is a decimal
that can be displayed; and unless its leading digit stands more than a thousand
million places away from the point, evaluating what is displayed at the same
precision gives the same number, a zero without its sign. -/
theorem display_reads_back (style : Style) (e : Engine) (p : Precision)
    (draws draws' : Nat → Decimal) (source : String) (v : Number)
    (hstyle : e.catalog = Preset.catalog style) (hlength : e.maxLength = none)
    (hdraws : ∀ k, (draws k).IsDraw)
    (hv : (e.evaluate ⟨p.digits, draws⟩ source).result = .ok v) :
    ∃ x text, v = .finite x ∧ v.display {} = .ok text ∧
      (x.canonical.magnitude.natAbs ≤ 1000000000 →
        ∃ y, (e.evaluate ⟨p.digits, draws'⟩ text).result = .ok (.finite y) ∧
          y.toRat = x.toRat ∧ (x.coeff = 0 → y = Decimal.zero)) := by
  have hsource : ∀ n source, e.evaluate n source =
      Evaluation.ofSource (Preset.catalog style) n source := by
    intro n source
    simp only [Engine.evaluate, Engine.lengthProblem?, hlength, hstyle]
  rw [hsource] at hv
  have htokens := Evaluation.ofSource_eq_ofTokens hv
  rw [htokens] at hv
  -- an evaluation gave the value, so it has no digits that its numeral could lose
  cases ((Numerics.keeps_within hdraws).outcome _ _ _).2 v hv with
  | @finite x hx =>
      refine ⟨x, x.plain, rfl, rfl, fun hr => ⟨x.reread, ?_, x.toRat_reread, fun h => if_pos h⟩⟩
      rw [hsource]
      refine Evaluation.ofSource_plain p.positive draws' style hx fun _ => ?_
      rw [Number.exponentLimit]
      omega

/-- What `2 - 11/4` comes to. -/
def minusThreeQuarters : Decimal := ⟨true, 75, -2⟩

theorem minusThreeQuarters_reads_back :
    (Engine.plain.evaluate ⟨Precision.standard.digits, fun _ => Decimal.zero⟩ "2 - 11/4").result =
        .ok (.finite minusThreeQuarters) ∧
      ∃ y, (Engine.plain.evaluate ⟨Precision.standard.digits, fun _ => Decimal.zero⟩
          minusThreeQuarters.plain).result = .ok (.finite y) ∧
        y.toRat = minusThreeQuarters.toRat := by
  have hv := toOption_eq_some.mp (show (Engine.plain.evaluate ⟨Precision.standard.digits,
    fun _ => Decimal.zero⟩ "2 - 11/4").result.toOption = some (.finite minusThreeQuarters) by
      decide +kernel)
  obtain ⟨x, text, hx, ht, h⟩ := display_reads_back .standard Engine.plain .standard _
    (fun _ => Decimal.zero) _ _ rfl rfl (fun _ => ⟨rfl, by decide +kernel⟩) hv
  cases hx
  cases ht
  obtain ⟨y, hy, hrat, -⟩ := h (by decide +kernel)
  exact ⟨hv, y, hy, hrat⟩

end Reckoner
