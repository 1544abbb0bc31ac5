/-
# Catalogs that agree on tokens

An evaluation asks its catalog what a name or an operator stands for where it
stands, and which brackets a text opens, and nothing else while everything is
declared.  Two catalogs with the same brackets that give the same answers for
some tokens evaluate them alike, step by step and to the same value or the same
problem, however much else one of them declares.

An operator that follows an operand is the binary one.  Whether it does can be
told from the tokens alone: what is left behind by a token that is handled is an
operand exactly if an operand may end with it (`State.previous_of_handle`).
-/
import Reckoner.Proofs.Evaluation.Translation

namespace Reckoner

/-- `d.Concurs d' behind ts`: all that stands among the tokens is declared, and
stands for the same in both definitions. -/
def Definition.Concurs (d d' : Definition) : Bool → List Token → Prop
  | _, [] => True
  | behind, t :: ts =>
    (t.kind.isDeclared = true → ∃ a, d.meaning? behind t = some a ∧ d'.meaning? behind t = some a) ∧
      d.Concurs d' t.closesOperand ts

variable {c c' : Catalog} {n : Numerics} {width : Nat}

namespace State

/-! ## What a token leaves behind -/

section

variable {st st' : State} {token : Token} {next : Option Token}

theorem previous_literal (h : st.literal n token = .ok st') : st'.previous = .operand := by
  simp only [literal, bind_eq_ok, pure_eq_ok, Except.ok.injEq] at h
  obtain ⟨_, -, _, -, rfl⟩ := h
  rfl

theorem previous_function {f : Function} (h : st.function c f token next = .ok st') :
    st'.previous = .opening ∧ ∃ b, callBrackets? c next = some b := by
  unfold function at h
  split at h
  · cases h
  · next b hb =>
      cases h
      exact ⟨rfl, b, hb⟩

theorem previous_constant (h : st.constant c n token = .ok st') : st'.previous = .operand := by
  unfold constant at h
  split at h
  · simp only [bind_eq_ok, pure_eq_ok, Except.ok.injEq] at h
    obtain ⟨_, -, rfl⟩ := h
    rfl
  · cases h

theorem previous_operator (h : st.operator c n token = .ok st') : st'.previous = .operator := by
  unfold operator at h
  split at h
  · split at h
    · cases h
    · simp only [bind_eq_ok, pure_eq_ok, Except.ok.injEq] at h
      obtain ⟨_, -, rfl⟩ := h
      rfl
  · split at h
    · cases h
    · cases h
      rfl

theorem previous_opening (h : st.opening c token = .ok st') : st'.previous = .opening := by
  simp only [opening, bind_eq_ok] at h
  obtain ⟨_, -, h⟩ := h
  split at h
  · cases h
  · cases h
    rfl

theorem previous_closing (h : st.closing n token = .ok st') : st'.previous = .operand := by
  unfold closing at h
  split at h
  · simp only [bind_eq_ok] at h
    obtain ⟨⟨w, pending⟩, -, h⟩ := h
    split at h
    · split at h
      · simp only [bind_eq_ok, pure_eq_ok, Except.ok.injEq] at h
        obtain ⟨_, -, rfl⟩ := h
        rfl
      · cases h
    · split at h
      · cases h
        rfl
      · cases h
    · cases h
  · split at h
    · cases h
    · cases h

theorem previous_separator (h : st.separator n token = .ok st') : st'.previous = .separator := by
  unfold separator at h
  split at h
  · simp only [bind_eq_ok] at h
    obtain ⟨⟨w, pending⟩, -, h⟩ := h
    split at h
    · cases h
      rfl
    · cases h
  · cases h

/-- A token that is handled without the one behind it. -/
theorem handled_alone {x : Except Halt State} {used : Bool}
    (h : (do return (← x, false)) = Except.ok (st', used)) : used = false ∧ x = .ok st' := by
  simp only [bind_eq_ok, pure_eq_ok, Except.ok.injEq, Prod.mk.injEq] at h
  obtain ⟨_, hx, rfl, rfl⟩ := h
  exact ⟨rfl, hx⟩

/-- What a token leaves behind is an operand, if one may end with it.  The name of
a function takes its bracket with it, and then none has ended. -/
theorem previous_of_handle {used : Bool} (h : st.handle c n token next = .ok (st', used)) :
    if used then st'.previous = .opening ∧ ∃ b, callBrackets? c next = some b
    else st'.previous.isOperand = token.closesOperand := by
  unfold handle at h
  split at h
  · next hk =>
      obtain ⟨rfl, hst⟩ := handled_alone h
      simp only [Bool.false_eq_true, if_false, previous_literal hst, Token.closesOperand, hk]
      rfl
  · next hk =>
      simp only [identifier, bind_eq_ok] at h
      obtain ⟨_, -, h⟩ := h
      split at h
      · simp only [bind_eq_ok, pure_eq_ok, Except.ok.injEq, Prod.mk.injEq] at h
        obtain ⟨_, h, rfl, rfl⟩ := h
        exact previous_function h
      · obtain ⟨rfl, hst⟩ := handled_alone h
        simp only [Bool.false_eq_true, if_false, previous_constant hst, Token.closesOperand, hk]
        rfl
  · next hk =>
      obtain ⟨rfl, hst⟩ := handled_alone h
      simp only [Bool.false_eq_true, if_false, previous_operator hst, Token.closesOperand, hk]
      rfl
  · next hk =>
      obtain ⟨rfl, hst⟩ := handled_alone h
      simp only [Bool.false_eq_true, if_false, previous_opening hst, Token.closesOperand, hk]
      rfl
  · next hk =>
      obtain ⟨rfl, hst⟩ := handled_alone h
      simp only [Bool.false_eq_true, if_false, previous_closing hst, Token.closesOperand, hk]
      rfl
  · next hk =>
      obtain ⟨rfl, hst⟩ := handled_alone h
      simp only [Bool.false_eq_true, if_false, previous_separator hst, Token.closesOperand, hk]
      rfl
  · cases h

end

/-! ## Handling what stands for the same -/

section

variable (hf : c'.functionBrackets = c.functionBrackets)
  (he : c'.expressionBrackets = c.expressionBrackets)

include hf

theorem callBrackets?_of_eq (next : Option Token) :
    callBrackets? c' next = callBrackets? c next := by
  simp only [callBrackets?, Definition.findFunctionBrackets?, hf]

include he

/-- A token that stands for the same is handled alike. -/
theorem handle_of_concurs {st : State} {token : Token} (next : Option Token)
    (h : token.kind.isDeclared = true → ∃ a, c.meaning? st.previous.isOperand token = some a ∧
      c'.meaning? st.previous.isOperand token = some a) :
    st.handle c' n token next = st.handle c n token next := by
  unfold handle
  split
  · rfl
  · next hk =>
      obtain ⟨a, ha, ha'⟩ := h (by rw [hk]; rfl)
      simp only [identifier]
      cases a with
      | function f =>
          rw [Definition.findFunction?_of_meaning? hk ha,
            Definition.findFunction?_of_meaning? hk ha']
          simp only [function, callBrackets?_of_eq hf, hf]
      | constant k =>
          obtain ⟨hnone, hfind⟩ := Definition.findConstant?_of_meaning? hk ha
          obtain ⟨hnone', hfind'⟩ := Definition.findConstant?_of_meaning? hk ha'
          simp only [hnone, hnone', constant, hfind, hfind']
      | operator op =>
          simp only [Definition.meaning?, hk] at ha
          split at ha
          · cases ha
          · obtain ⟨_, -, he⟩ := Option.map_eq_some_iff.mp ha
            cases he
  · next hk =>
      obtain ⟨a, ha, ha'⟩ := h (by rw [hk]; rfl)
      simp only [Definition.meaning?, hk] at ha ha'
      obtain ⟨op, hop, rfl⟩ := Option.map_eq_some_iff.mp ha
      obtain ⟨op', hop', he⟩ := Option.map_eq_some_iff.mp ha'
      cases he
      simp only [operator]
      split
      · next hp =>
          rw [hp] at hop hop'
          rw [show c.findOperator? token.text .binary = some op from hop,
            show c'.findOperator? token.text .binary = some op from hop']
      · next hp =>
          rw [Previous.isOperand_eq_false hp] at hop hop'
          rw [show c.findOperator? token.text .unary = some op from hop,
            show c'.findOperator? token.text .unary = some op from hop']
  · simp only [opening, Definition.findExpressionBrackets?, he]
  · rfl
  · rfl
  · rfl

theorem run_of_concurs {st : State} {ts : List Token}
    (h : c.Concurs c'.toDefinition st.previous.isOperand ts) :
    run c' n width none st ts = run c n width none st ts := by
  match ts with
  | [] => rfl
  | token :: ts =>
      obtain ⟨htoken, hrest⟩ := h
      rw [run_cons, run_cons, handle_of_concurs hf he ts.head? htoken]
      cases hh : st.handle c n token ts.head? with
      | error halt => rfl
      | ok r =>
          obtain ⟨st', used⟩ := r
          have hprevious := previous_of_handle hh
          cases used with
          | false =>
              have hprevious : st'.previous.isOperand = token.closesOperand := hprevious
              refine run_of_concurs ?_
              rwa [hprevious]
          | true =>
              obtain ⟨hprevious, b, hb⟩ := hprevious
              obtain ⟨next, hnext, hk, -⟩ := callBrackets?_eq_some hb
              cases ts with
              | nil => cases hnext
              | cons bracket rest =>
                  cases hnext
                  -- the bracket of a call ends no operand
                  have hcloses : next.closesOperand = false := by rw [Token.closesOperand, hk]
                  refine run_of_concurs ?_
                  rw [hprevious, show Previous.opening.isOperand = next.closesOperand from
                    hcloses.symm]
                  exact hrest.2
termination_by ts.length

end

end State

/-- Tokens that stand for the same in two catalogs come to the same there by the
same steps. -/
theorem Evaluation.ofTokens_of_concurs {tokens : List Token}
    (h : c.Concurs c'.toDefinition false tokens)
    (hf : c'.functionBrackets = c.functionBrackets)
    (he : c'.expressionBrackets = c.expressionBrackets) :
    ofTokens c' n width tokens = ofTokens c n width tokens := by
  have hrun :
      State.run c' n width none .initial tokens = State.run c n width none .initial tokens :=
    State.run_of_concurs hf he h
  rw [ofTokens, ofTokens, ofLexing, ofLexing, hrun]

end Reckoner
