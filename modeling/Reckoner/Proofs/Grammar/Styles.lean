/-
# One style in the other

What is accepted in the spreadsheet style comes to the same in the standard
style once every run of leading minus signs is put into parentheses together
with what it applies to:

    spreadsheet     standard
    -2^2            (-2)^2
    2^-3 * -pi      2^(-3) * (-pi)

Without a `^` right behind an operand that a run applies to, no parentheses are
needed.  In both cases the values agree at every precision and for every draw,
and so do the steps by which they are reached.

    the tokens are read as the same tree, with or without
    the parentheses                                          (`Reads.carried`)
    the new source is lexed into the new tokens              (`Preset.lex_enclose`)
    places play no part in either                            (`Accepts.relocated`)
-/
import Reckoner.Proofs.Token.Insertion

namespace Reckoner

/-- A source is accepted by a catalog: all of it is lexed, and its tokens are an
expression.  It need not have a value. -/
def Catalog.AcceptsSource (c : Catalog) (source : String) : Prop :=
  (c.lex source).stray = none ∧ ∃ t, c.Accepts (c.lex source).tokens t

theorem Catalog.acceptsSource_of_ok {c : Catalog} {n : Numerics} {source : String} {x : Number}
    (h : (Evaluation.ofSource c n source).result = .ok x) : c.AcceptsSource source := by
  have htokens := Evaluation.ofSource_eq_ofTokens h
  generalize he : Evaluation.ofSource c n source = e at h htokens
  obtain ⟨steps, result⟩ := e
  cases h
  obtain ⟨t, ht, -⟩ := Evaluation.ofTokens_eq_ok_iff.mp htokens.symm
  exact ⟨Evaluation.stray_of_ok (congrArg Evaluation.result he), t, ht⟩

instance Scan.decidableClear : (s : Scan) → (ts : List Token) → Decidable (s.Clear ts)
  | _, [] => isTrue trivial
  | s, t :: ts =>
    haveI := decidableClear (s.next t) ts
    inferInstanceAs (Decidable ((s.closes t = true → startsPower ts = false) ∧ _))

/-- Every source that the spreadsheet style accepts is accepted by the standard
style with the parentheses put in, and comes to the same there by the same
steps.  Where the operand of no run is followed by a power, the source itself
does. -/
theorem spreadsheet_in_standard (source : String)
    (h : (Preset.catalog .spreadsheet).AcceptsSource source) :
    ((Preset.catalog .standard).AcceptsSource (Preset.enclose source) ∧
      ∀ n, (Evaluation.ofSource (Preset.catalog .spreadsheet) n source).Agrees
        (Evaluation.ofSource (Preset.catalog .standard) n (Preset.enclose source))) ∧
    (Scan.start.Clear ((Preset.catalog .spreadsheet).lex source).tokens →
      (Preset.catalog .standard).AcceptsSource source ∧
        ∀ n, (Evaluation.ofSource (Preset.catalog .spreadsheet) n source).Agrees
          (Evaluation.ofSource (Preset.catalog .standard) n source)) := by
  obtain ⟨hstray, t, ht⟩ := h
  have hcarried := Reads.carried ht false [] .nothing
  refine ⟨?_, fun hclear => ?_⟩
  · obtain ⟨hstray', htokens⟩ := Preset.lex_enclose hstray
    have henclosed : (Preset.catalog .standard).Accepts
        (Scan.start.enclose ((Preset.catalog .spreadsheet).lex source).tokens) t.loosened :=
      hcarried.enclosed
    obtain ⟨t', houtline, ht'⟩ := henclosed.relocated htokens
    rw [Tree.outline_loosened] at houtline
    exact ⟨⟨hstray', t', ht'⟩, fun n => ht.ofSource_agrees hstray hstray' ht' houtline⟩
  · obtain ⟨ht', -, -⟩ := hcarried.plain hclear
    -- both styles have the same symbols, so the tokens are the same
    have hlex : (Preset.catalog .standard).lex source = (Preset.catalog .spreadsheet).lex source :=
      rfl
    rw [← hlex] at ht' hstray
    exact ⟨⟨hstray, t.loosened, ht'⟩,
      fun n => ht.ofSource_agrees hstray hstray ht' t.outline_loosened⟩

theorem minusTwoSquared_styles :
    (Preset.enclose "-2^2" = "(-2)^2" ∧
      (Evaluation.ofSource (Preset.catalog .standard) ⟨20, fun _ => Decimal.zero⟩ "(-2)^2").result =
        .ok (.finite ⟨false, 4, 0⟩)) ∧
    (Evaluation.ofSource (Preset.catalog .standard) ⟨20, fun _ => Decimal.zero⟩ "-2*3^2").result =
      .ok (.finite ⟨true, 18, 0⟩) := by
  have hwords : Preset.enclose "-2^2" = "(-2)^2" := by decide +kernel
  have hpower := toOption_eq_some.mp (show (Evaluation.ofSource (Preset.catalog .spreadsheet)
    ⟨20, fun _ => Decimal.zero⟩ "-2^2").result.toOption = some (.finite ⟨false, 4, 0⟩) by
      decide +kernel)
  have hproduct := toOption_eq_some.mp (show (Evaluation.ofSource (Preset.catalog .spreadsheet)
    ⟨20, fun _ => Decimal.zero⟩ "-2*3^2").result.toOption = some (.finite ⟨true, 18, 0⟩) by
      decide +kernel)
  have hclear : Scan.start.Clear ((Preset.catalog .spreadsheet).lex "-2*3^2").tokens := by
    decide +kernel
  have h := spreadsheet_in_standard "-2^2" (Catalog.acceptsSource_of_ok hpower)
  have h' := spreadsheet_in_standard "-2*3^2" (Catalog.acceptsSource_of_ok hproduct)
  rw [hwords] at h
  exact ⟨⟨hwords, ((h.1.2 _).value _).mp hpower⟩, (((h'.2 hclear).2 _).value _).mp hproduct⟩

end Reckoner
