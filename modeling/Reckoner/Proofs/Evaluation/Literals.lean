/-
# Literals have values

What the lexer takes for a literal is a numeral, and no longer than its source.
So unless the source is very long, every literal of it has a value at every
precision, and an evaluation stops for other reasons only:

    a character that starts no token    says nothing of a literal
    the form, or the kind of a token    says nothing of a value
    a literal without a value           there is none
    an application without a value      is of a symbol or a name, and no literal
                                        is written like one of these
-/
import Reckoner.Proofs.Evaluation.Bookkeeping
import Reckoner.Proofs.Operation.Literal
import Reckoner.Proofs.Token.MaximalMunch

namespace Reckoner

/-- What is declared is not written like a literal. -/
theorem Applied.Listed.surface_ne {c : Catalog} {a : Applied} {text : String} (h : a.Listed c)
    (ht : Lexeme c.toDefinition .literal text.toList) : a.surface ≠ text := by
  rintro rfl
  cases a with
  | operator op => cases ht.kind_unique (.symbol (Definition.operator_mem_uses h))
  | function f => cases ht.kind_unique (.of_isName (Catalog.isName_of_mem_functions h))
  | constant k => cases ht.kind_unique (.of_isName (Catalog.isName_of_mem_constants h))

/-- Where all literals have values, no literal is without a value. -/
theorem Explains.subject_ne {c : Catalog} {n : Numerics} {m : Moment} {text subject : String}
    {digits : Nat} {reason : Reason} (h : Explains c n m (.noValue subject digits reason))
    (hl : ∀ p ∈ m.state.pending, p.Listed c)
    (hvalues : ∀ t ∈ m.tokens, t.kind = .literal → ∃ x, Number.parse n.precision t.text = .ok x)
    (ht : Lexeme c.toDefinition .literal text.toList) : subject ≠ text := by
  cases h with
  | form hf => cases hf
  | numeral htokens hk hr =>
      obtain ⟨x, hx⟩ := hvalues _ (htokens ▸ List.mem_cons_self) hk
      cases hx.symm.trans hr
  | application ha hr => exact (ha.listed hl).surface_ne ht

/-- An evaluation of a source whose literals have values does not stop at a literal for
want of one. -/
theorem Evaluation.subject_ne_literal {c : Catalog} {n : Numerics} {source : String}
    {problem : Problem} (h : (Evaluation.ofSource c n source).result = .error problem)
    (hvalues : ∀ t ∈ (c.lex source).tokens, t.kind = .literal →
      ∃ x, Number.parse n.precision t.text = .ok x)
    {t : Token} (ht : t ∈ (c.lex source).tokens) (hk : t.kind = .literal) (digits : Nat)
    (reason : Reason) : problem.cause ≠ .noValue t.text digits reason := by
  intro hcause
  rcases problem_of_ofSource h with ⟨s, -, rfl⟩ | htokens
  · cases hcause
  obtain ⟨m, hl, -, -, hlast⟩ := exists_last c n (Text.units source) (c.lex source).tokens
  rcases hlast with ⟨x, hx, -⟩ | ⟨halt, hhalt, hstops⟩
  · cases hx.symm.trans htokens
  · cases hhalt.symm.trans htokens
    have hexplains := hstops.cause
    rw [hcause] at hexplains
    exact hexplains.subject_ne (hl.preserves Moves.listed fun _ h => absurd h List.not_mem_nil)
      (fun u hu => hvalues u (hl.tokens_suffix.mem hu)) (hk ▸ Catalog.lexeme_of_mem_lex ht) rfl

/-- Every literal of a source that is not too long has a value at every precision: the
number that its digits denote, rounded once.  It is that number if this has no more
digits than the precision, and zeros in front of the literal or at its end do not change
it.  So no evaluation stops at a literal for want of a value. -/
theorem literal_denotes (c : Catalog) (p : Precision) {source : String}
    (hlength : source.length ≤ 1000000000) {t : Token} (ht : t ∈ (c.lex source).tokens)
    (hk : t.kind = .literal) :
    (∃ x : Decimal, Number.parse p.digits t.text = .ok (.finite x) ∧
      x.toRat = rounded p.digits (positional t.text.toList) ∧
      (∀ (n : Nat) (e : Int), n < 10 ^ p.digits → positional t.text.toList = n * 10 ^ e →
        x.toRat = positional t.text.toList) ∧
      ∀ (j : Nat) (tail : List Char), TrailingZeros t.text.toList tail →
        (zeros j ++ t.text.toList ++ tail).length ≤ 1000000000 →
          ∃ y : Decimal,
            Number.parse p.digits (String.ofList (zeros j ++ t.text.toList ++ tail)) =
              .ok (.finite y) ∧ y.toRat = x.toRat) ∧
    ∀ draws problem, (Evaluation.ofSource c ⟨p.digits, draws⟩ source).result = .error problem →
      ∀ digits reason, problem.cause ≠ .noValue t.text digits reason := by
  have hgives : ∀ t ∈ (c.lex source).tokens, t.kind = .literal →
      (Number.parse p.digits t.text).Gives (rounded p.digits (positional t.text.toList)) := by
    intro t ht hk
    obtain ⟨m, e, hs⟩ := Catalog.spells_of_mem_lex ht hk
    exact Number.parse_literal p hs ((Catalog.length_le_of_mem_lex ht).trans hlength)
  refine ⟨?_, fun draws problem h digits reason => ?_⟩
  · obtain ⟨m, e, hs⟩ := Catalog.spells_of_mem_lex ht hk
    obtain ⟨x, hx, hxq⟩ := hgives t ht hk
    refine ⟨x, hx, hxq, fun n e hn hq => ?_, fun j tail hz hle => ?_⟩
    · rw [hxq, hq, rounded_natCast_mul p.positive hn]
    · rw [hxq]
      exact Number.parse_padded p hs hz j hle
  · refine Evaluation.subject_ne_literal h (fun u hu hku => ?_) ht hk digits reason
    obtain ⟨x, hx, -⟩ := hgives u hu hku
    exact ⟨_, hx⟩

theorem literal_denotes_half :
    let c := Preset.catalog .standard
    let t : Token := ⟨.literal, "00.12350", 0, 8⟩
    "00.12350 / 0".length ≤ 1000000000 ∧ t ∈ (c.lex "00.12350 / 0").tokens ∧
      Number.parse 3 t.text = .ok (.finite ⟨false, 124, -3⟩) ∧
      (⟨false, 124, -3⟩ : Decimal).toRat = rounded 3 (positional t.text.toList) ∧
      ∀ problem, (Evaluation.ofSource c ⟨3, fun _ => Decimal.zero⟩ "00.12350 / 0").result =
          .error problem →
        ∀ digits reason, problem.cause ≠ .noValue t.text digits reason := by
  intro c t
  have ht : t ∈ (c.lex "00.12350 / 0").tokens := by decide +kernel
  have hvalue : Number.parse 3 t.text = .ok (.finite ⟨false, 124, -3⟩) :=
    toOption_eq_some.mp (by decide +kernel)
  obtain ⟨⟨x, hx, hxq, -⟩, hstops⟩ := literal_denotes c { digits := 3 } (by decide) ht rfl
  cases hvalue.symm.trans hx
  exact ⟨by decide, ht, hvalue, hxq, hstops _⟩

end Reckoner
