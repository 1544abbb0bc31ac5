/-
# Exact arithmetic is exact

An expression of decimal literals and of operations whose results are rational
has a value that owes nothing to any precision.  If that value, and every value
on the way to it, can be written with the digits there are, the evaluation gives
it.  And since the value of a sum does not depend on the order of what is added,
neither does what is given.
-/
import Reckoner.Catalog.Preset
import Reckoner.Precision
import Reckoner.Proofs.Grammar.Evaluating
import Reckoner.Proofs.Grammar.Extent
import Reckoner.Proofs.Token.MaximalMunch

namespace Reckoner

/-- `ExactAt c p source t`: the source is read as the expression `t`, of literals
and arithmetic, which divides by no zero and none of whose parts has a value that
`p` digits cannot hold. -/
structure Catalog.ExactAt (c : Catalog) (p : Nat) (source : String) (t : Tree) : Prop where
  /-- No text is longer than can be counted in binary64.  The bound is there for an
  average, which divides by the number of its arguments, and for a remainder, which is
  taken from a multiple within the range. -/
  length : source.length < 2 ^ 53
  /-- The source is lexed to its end. -/
  stray : (c.lex source).stray = none
  accepts : c.Accepts (c.lex source).tokens t
  rational : t.IsRational
  divisors : t.NeverDividesByZero
  fits : t.Fits p

theorem Token.width_lexFrom_le (symbols : List Symbol) (offset : Nat) (cs : List Char) :
    width (lexFrom symbols offset cs).tokens ≤ cs.length := by
  induction offset, cs using lexFrom.induct symbols with
  | case1 =>
      rw [lexFrom]
      exact Nat.le_refl 0
  | case2 offset ch rest hs ih =>
      rw [lexFrom, if_pos hs, List.length_cons]
      omega
  | case3 offset ch rest hs hh =>
      rw [lexFrom, if_neg hs, hh]
      exact Nat.zero_le _
  | case4 offset ch rest hs kind length hh text stop ih =>
      simp only [stop, text, List.length_drop] at ih
      rw [lexFrom, if_neg hs, hh, width_cons, String.length_ofList, List.length_take,
        List.length_cons]
      omega

theorem Catalog.width_lex_le (c : Catalog) (source : String) :
    Token.width (c.lex source).tokens ≤ source.length := by
  rw [← String.length_toList]
  exact Token.width_lexFrom_le c.symbols 0 source.toList

namespace Catalog.ExactAt

/-- Every node is one that can be evaluated. -/
theorem formed {c : Catalog} {p : Nat} {source : String} {t : Tree} (h : c.ExactAt p source t) :
    ∀ s ∈ t.parts, s.Formed c (2 ^ 53) := by
  refine Reads.formed h.accepts (fun token => Catalog.spells_of_mem_lex) ?_
  have hcount : (c.lex source).tokens.length ≤ Token.width (c.lex source).tokens :=
    Token.length_le_width fun token => Catalog.length_pos_of_mem_lex
  exact (hcount.trans (c.width_lex_le source)).trans_lt h.length

/-- The expression is not longer than its source. -/
theorem extent_lt {c : Catalog} {p : Nat} {source : String} {t : Tree} (h : c.ExactAt p source t) :
    t.extent < 2 ^ 53 := by
  have hread : t.extent + Token.width [] ≤ 0 + Token.width (c.lex source).tokens :=
    Reads.extent_le h.accepts fun token => Catalog.length_pos_of_mem_lex
  have hwidth := c.width_lex_le source
  have hlength := h.length
  omega

variable {style : Style} {p : Precision} {source : String} {t : Tree}

/-- The expression has a value, and it is what the evaluation gives. -/
theorem result (h : (Preset.catalog style).ExactAt p.digits source t) (draws : Nat → Decimal) :
    ∃ q x, t.value? = some q ∧
      (Evaluation.ofSource (Preset.catalog style) ⟨p.digits, draws⟩ source).result =
        .ok (.finite x) ∧ x.toRat = q := by
  obtain ⟨q, hq⟩ := Tree.exists_value t h.formed h.rational h.divisors
  obtain ⟨x, steps, hx, hxq⟩ := Tree.eval_exact (n := ⟨p.digits, draws⟩) p.positive t h.formed
    h.fits (Tree.multiples_fit t h.formed h.fits h.extent_lt) hq []
  have hl := Reads.evaluated h.accepts State.initial (.finite x) steps nofun rfl rfl hx
  exact ⟨q, x, hq, by rw [Evaluation.ofSource_of_stray h.stray, hl.ofTokens_eq], hxq⟩

end Catalog.ExactAt

/-- In a built-in catalog an expression of literals, brackets, `+ - * / %` and the
functions whose results are rational, in which no divisor is zero, has a value; if
that value, with every value and every partial sum on the way to it, is a decimal
of at most `p` significant digits within range, the expression evaluates to exactly
that.  Sums and chains of additions of the same values, in whatever order, come to
the same number. -/
theorem exact_arithmetic (style : Style) (p : Precision) (draws : Nat → Decimal) :
    (∀ source t, (Preset.catalog style).ExactAt p.digits source t →
      ∃ q x, t.value? = some q ∧
        (Evaluation.ofSource (Preset.catalog style) ⟨p.digits, draws⟩ source).result =
          .ok (.finite x) ∧ x.toRat = q) ∧
    ∀ source source' t t', (Preset.catalog style).ExactAt p.digits source t →
      (Preset.catalog style).ExactAt p.digits source' t' →
      (t.addends.map Tree.value?).Perm (t'.addends.map Tree.value?) →
      ∃ x x',
        (Evaluation.ofSource (Preset.catalog style) ⟨p.digits, draws⟩ source).result =
          .ok (.finite x) ∧
        (Evaluation.ofSource (Preset.catalog style) ⟨p.digits, draws⟩ source').result =
          .ok (.finite x') ∧ x.toRat = x'.toRat := by
  refine ⟨fun source t h => h.result draws, fun source source' t t' h h' hperm => ?_⟩
  obtain ⟨q, x, hq, hx, rfl⟩ := h.result draws
  obtain ⟨q', x', hq', hx', rfl⟩ := h'.result draws
  exact ⟨x, x', hx, hx', Tree.value?_eq_of_perm hq hq' hperm⟩

/-! ## Two instances -/

/-- The tree of `avg(1, 2) - -7 % 4`. -/
def remainderTree : Tree :=
  .binary (Preset.leftward .subtract "-" 1) ⟨.symbol .operator, "-", 10, 11⟩
    (.call (Preset.several .average "avg") ⟨.identifier, "avg", 0, 3⟩
      [.literal ⟨.literal, "1", 4, 5⟩, .literal ⟨.literal, "2", 7, 8⟩])
    (.binary (Preset.leftward .modulo "%" 2) ⟨.symbol .operator, "%", 15, 16⟩
      (.unary (Preset.negate 3) ⟨.symbol .operator, "-", 12, 13⟩
        (.literal ⟨.literal, "7", 13, 14⟩))
      (.literal ⟨.literal, "4", 17, 18⟩))

/-- The tree of `sum(0.1, 0.2)`. -/
def tenthsCall : Tree :=
  .call (Preset.several .sum "sum") ⟨.identifier, "sum", 0, 3⟩
    [.literal ⟨.literal, "0.1", 4, 7⟩, .literal ⟨.literal, "0.2", 9, 12⟩]

/-- The tree of `0.2 + 0.1`. -/
def tenthsChain : Tree :=
  .binary (Preset.leftward .add "+" 1) ⟨.symbol .operator, "+", 4, 5⟩
    (.literal ⟨.literal, "0.2", 0, 3⟩) (.literal ⟨.literal, "0.1", 6, 9⟩)

/-- The minus belongs to the dividend, and the remainder of `-7` by `4` is `1`. -/
theorem exactAt_remainder :
    (Preset.catalog .standard).ExactAt 2 "avg(1, 2) - -7 % 4" remainderTree := by
  refine ⟨by decide, by decide +kernel, ?_, by decide +kernel, by decide +kernel, ?_⟩
  · rw [show ((Preset.catalog .standard).lex "avg(1, 2) - -7 % 4").tokens =
      [⟨.identifier, "avg", 0, 3⟩, ⟨.symbol .opening, "(", 3, 4⟩, ⟨.literal, "1", 4, 5⟩,
       ⟨.symbol .separator, ",", 5, 6⟩, ⟨.literal, "2", 7, 8⟩, ⟨.symbol .closing, ")", 8, 9⟩,
       ⟨.symbol .operator, "-", 10, 11⟩, ⟨.symbol .operator, "-", 12, 13⟩,
       ⟨.literal, "7", 13, 14⟩, ⟨.symbol .operator, "%", 15, 16⟩, ⟨.literal, "4", 17, 18⟩] by
      decide +kernel]
    refine .expression (.call rfl rfl rfl rfl (.more (.expression (.literal rfl) (.stop ?_)) rfl
      (.last (.expression (.literal rfl) (.stop ?_)) rfl rfl)) (by decide +kernel))
      (.extend rfl rfl (.expression (.unary rfl rfl (.expression (.literal rfl) (.stop ?_)))
        (.extend rfl (by decide +kernel) (.expression (.literal rfl) (.stop ?_)) (.stop ?_)))
        (.stop ?_))
    all_goals
      intro b hb
      cases hb
    -- only the `%` behind the `7` is an operator that comes next, and it is reduced before
    decide +kernel
  · exact Tree.fits_of_forall [⟨false, 1, 0⟩, ⟨false, 2, 0⟩, ⟨false, 3, 0⟩, ⟨false, 15, -1⟩,
      ⟨false, 7, 0⟩, ⟨true, 7, 0⟩, ⟨false, 4, 0⟩, ⟨false, 5, -1⟩] (by decide +kernel)
      (by decide +kernel)

theorem exactAt_tenthsCall :
    (Preset.catalog .standard).ExactAt 2 "sum(0.1, 0.2)" tenthsCall := by
  refine ⟨by decide, by decide +kernel, ?_, by decide +kernel, by decide +kernel, ?_⟩
  · rw [show ((Preset.catalog .standard).lex "sum(0.1, 0.2)").tokens =
      [⟨.identifier, "sum", 0, 3⟩, ⟨.symbol .opening, "(", 3, 4⟩, ⟨.literal, "0.1", 4, 7⟩,
       ⟨.symbol .separator, ",", 7, 8⟩, ⟨.literal, "0.2", 9, 12⟩,
       ⟨.symbol .closing, ")", 12, 13⟩] by decide +kernel]
    refine .expression (.call rfl rfl rfl rfl (.more (.expression (.literal rfl) (.stop ?_)) rfl
      (.last (.expression (.literal rfl) (.stop ?_)) rfl rfl)) (by decide +kernel)) (.stop ?_)
    all_goals
      intro b hb
      cases hb
  · exact Tree.fits_of_forall [⟨false, 1, -1⟩, ⟨false, 2, -1⟩, ⟨false, 3, -1⟩]
      (by decide +kernel) (by decide +kernel)

theorem exactAt_tenthsChain :
    (Preset.catalog .standard).ExactAt 2 "0.2 + 0.1" tenthsChain := by
  refine ⟨by decide, by decide +kernel, ?_, by decide +kernel, by decide +kernel, ?_⟩
  · rw [show ((Preset.catalog .standard).lex "0.2 + 0.1").tokens =
      [⟨.literal, "0.2", 0, 3⟩, ⟨.symbol .operator, "+", 4, 5⟩, ⟨.literal, "0.1", 6, 9⟩] by
      decide +kernel]
    refine .expression (.literal rfl) (.extend rfl rfl (.expression (.literal rfl) (.stop ?_))
      (.stop ?_))
    all_goals
      intro b hb
      cases hb
  · exact Tree.fits_of_forall [⟨false, 1, -1⟩, ⟨false, 2, -1⟩, ⟨false, 3, -1⟩]
      (by decide +kernel) (by decide +kernel)

theorem remainder_and_tenths_exact :
    (∃ q x, remainderTree.value? = some q ∧
      (Evaluation.ofSource (Preset.catalog .standard) ⟨2, fun _ => .zero⟩
        "avg(1, 2) - -7 % 4").result = .ok (.finite x) ∧ x.toRat = q) ∧
    (∃ x x', (Evaluation.ofSource (Preset.catalog .standard) ⟨2, fun _ => .zero⟩
        "sum(0.1, 0.2)").result = .ok (.finite x) ∧
      (Evaluation.ofSource (Preset.catalog .standard) ⟨2, fun _ => .zero⟩
        "0.2 + 0.1").result = .ok (.finite x') ∧ x.toRat = x'.toRat) ∧
    remainderTree.value? = some (1 / 2) := by
  have h := exact_arithmetic .standard ⟨2, by decide, by decide⟩ fun _ => .zero
  refine ⟨h.1 _ _ exactAt_remainder, h.2 _ _ _ _ exactAt_tenthsCall exactAt_tenthsChain ?_,
    by decide +kernel⟩
  rw [show tenthsCall.addends.map Tree.value? = [some (1 / 10), some (2 / 10)] by decide +kernel,
    show tenthsChain.addends.map Tree.value? = [some (2 / 10), some (1 / 10)] by decide +kernel]
  exact List.Perm.swap _ _ _

end Reckoner
