/-
# The bookkeeping never fails

The evaluator checks three things that it believes: that an operator finds its
operands, that a call's operands are the arguments it has counted, and that a
single value is left at the end.  Here it is proved that these checks never
fail, whatever the catalog and the tokens; and that the primitives of every
catalog derived from a built-in one are never called for want of an operand.
-/
import Reckoner.Proofs.Catalog.Derived
import Reckoner.Proofs.Evaluation.Halting
import Reckoner.Proofs.Operation.Operands

namespace Reckoner

/-- Whether what is applied has the operands that it computes with. -/
def Applied.Supplied : Applied → Prop
  | .operator op => op.Supplied
  | .function f => f.Supplied
  | .constant _ => True

theorem Applied.supplied_outcome {a : Applied} (ha : a.Supplied) {xs : List Number}
    (hx : a.Accepts xs) (p : Nat) (draw : Decimal) : (a.outcome p draw xs).Supplied := by
  cases a with
  | operator op => exact Operator.supplied_apply ha hx p
  | function f => exact Function.supplied_apply ha hx p draw
  | constant k =>
      cases hk : k.id with
      | pi | e =>
          simp only [Applied.outcome, hk]
          exact Outcome.supplied_ok _
      | other =>
          simp only [Applied.outcome, hk]
          exact Outcome.supplied_error rfl

theorem Applied.supplied_of_listed {c : Catalog} (hc : c.toDefinition.Supplied) {a : Applied}
    (h : a.Listed c) : a.Supplied := by
  cases a with
  | operator op => exact hc.operators op h
  | function f => exact hc.functions f h
  | constant => trivial

variable {c : Catalog} {n : Numerics}

/-- A move takes tokens away and adds none. -/
theorem Moves.tokens_suffix {m m' : Moment} (h : Moves c n m m') : m'.tokens <:+ m.tokens := by
  cases h with
  | apply => exact List.suffix_refl _
  | function => exact (List.suffix_cons _ _).trans (List.suffix_cons _ _)
  | _ => exact List.suffix_cons _ _

theorem Leads.tokens_suffix {m m' : Moment} (h : Leads c n m m') : m'.tokens <:+ m.tokens := by
  induction h with
  | refl => exact List.suffix_refl _
  | step h₁ _ ih => exact ih.trans h₁.tokens_suffix

/-- Among tokens of the kinds that a source can hold, nothing explains an
assumption that does not hold, or an operator without operands. -/
theorem Explains.not_internal {m : Moment} {cause : Cause} (h : Explains c n m cause)
    (hk : ∀ token ∈ m.tokens, token.kind ∈ Token.Kind.known) :
    cause.category ≠ .internal ∧ ∀ symbol, cause ≠ .noOperandFor symbol := by
  cases h with
  | form hf =>
      cases cause with
      | noOperandFor | outOfStep | notSingle | noValue | unknownToken | stray | tooLong =>
          cases hf
      | _ => exact ⟨nofun, nofun⟩
  | @kind token ts name ht hn =>
      have := hk token (by rw [ht]; exact List.mem_cons_self)
      rw [hn] at this
      simp only [Token.Kind.known, List.mem_cons, List.not_mem_nil, reduceCtorEq, or_false] at this
  | numeral | application =>
      refine ⟨?_, nofun⟩
      simp only [Cause.category]
      split
      · exact nofun
      · exact nofun

theorem Explains.supplied {m : Moment} {subject : String} {digits : Nat} {reason : Reason}
    (h : Explains c n m (.noValue subject digits reason)) (hc : c.toDefinition.Supplied)
    (hb : m.state.Balanced) (hl : ∀ p ∈ m.state.pending, p.Listed c) :
    reason.lacksOperands = false := by
  cases h with
  | form hf => cases hf
  | numeral _ _ hr => exact Number.supplied_parse _ _ reason hr
  | application ha hr =>
      exact Applied.supplied_outcome (Applied.supplied_of_listed hc (ha.listed hl))
        (ha.accepts hb) _ _ reason hr

/-- For every catalog and all tokens of the known kinds: at every moment of the
evaluation, and in every step it reports, what is applied gets as many operands
as it takes; if there is no value, the reason is neither one of the evaluator's
own assumptions nor an operator without operands; and if the catalog is derived
from a built-in one, no primitive ever lacks an operand. -/
theorem evaluation_in_step (c : Catalog) (n : Numerics) (width : Nat) (tokens : List Token)
    (hk : ∀ token ∈ tokens, token.kind ∈ Token.Kind.known) :
    (∀ m, Leads c n (Moment.start tokens) m → ∀ a xs, m.Asks c a xs → a.Accepts xs) ∧
    (∀ step ∈ (Evaluation.ofTokens c n width tokens).steps, step.applied.Accepts step.operands) ∧
    ∀ problem, (Evaluation.ofTokens c n width tokens).result = .error problem →
      problem.cause.category ≠ .internal ∧
      (∀ symbol, problem.cause ≠ .noOperandFor symbol) ∧
      (c.Derived → ∀ subject digits reason,
        problem.cause = .noValue subject digits reason → reason.lacksOperands = false) := by
  obtain ⟨m, hl, hb, hs, hr⟩ := Evaluation.exists_last c n width tokens
  refine ⟨?_, ?_, ?_⟩
  · intro m' hl' a xs ha
    exact ha.accepts (hl'.balanced State.balanced_initial)
  · intro step hstep
    rw [hs, List.mem_reverse] at hstep
    exact hl.steps_accept State.balanced_initial (fun _ h => absurd h List.not_mem_nil) step hstep
  · intro problem hp
    rcases hr with ⟨x, hx, -⟩ | ⟨halt, hh, hstop⟩
    · rw [hx] at hp
      cases hp
    · rw [hh] at hp
      cases hp
      have hkm : ∀ token ∈ m.tokens, token.kind ∈ Token.Kind.known :=
        fun token ht => hk token (hl.tokens_suffix.mem ht)
      obtain ⟨hi, ho⟩ := hstop.cause.not_internal hkm
      refine ⟨hi, ho, fun hc subject digits reason he => ?_⟩
      have hcause := hstop.cause
      rw [he] at hcause
      exact hcause.supplied hc.supplied hb
        (hl.preserves Moves.listed fun _ h => absurd h List.not_mem_nil)

/-- The tokens of `2 - max(3)`. -/
def difference : List Token :=
  [⟨.literal, "2", 0, 1⟩, ⟨.symbol .operator, "-", 2, 3⟩, ⟨.identifier, "max", 4, 7⟩,
   ⟨.symbol .opening, "(", 7, 8⟩, ⟨.literal, "3", 8, 9⟩, ⟨.symbol .closing, ")", 9, 10⟩]

theorem difference_in_step :
    (∀ token ∈ difference, token.kind ∈ Token.Kind.known) ∧
      ∀ step ∈ (Evaluation.ofTokens (Preset.catalog .standard) ⟨20, fun _ => Decimal.zero⟩ 10
        difference).steps, step.applied.Accepts step.operands :=
  ⟨by decide,
    (evaluation_in_step (Preset.catalog .standard) ⟨20, fun _ => Decimal.zero⟩ 10 difference
      (by decide)).2.1⟩

end Reckoner
