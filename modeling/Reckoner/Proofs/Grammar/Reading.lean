/-
# Reading expressions by precedence climbing

The recursive way to read an expression, as rules.  To read an expression
below an operator `top` is to read one operand, and then, for as long as an
infix operator comes next that does not yield to `top`, to take that operator,
to read an expression below it, and to combine the two:

    expression top   operand, then chain top
    chain top left   while the next token is an infix operator that `top`
                     does not reduce before: the operator, an expression
                     below it
    operand          a numeral | a constant
                     | a prefix operator, an expression below it
                     | a bracket, an expression below nothing, its closing bracket
                     | a function, a bracket, arguments
                     | a function, a bracket, its closing bracket
    arguments        an expression below nothing, then the closing bracket,
                     or a separator and more arguments

`Reads c phrase ts rest` says that the phrase stands at the front of the
tokens `ts` and that `rest` is behind it.  Only `top` tells how far a phrase
reaches, and `Reads.unique` says that nothing is left to choice.
-/
import Reckoner.Proofs.Catalog.Lookup
import Reckoner.Proofs.Evaluation.Moment
import Reckoner.Proofs.Grammar.Tree

namespace Reckoner

/-- The binary operator that the next token is, if it is one. -/
def Catalog.infix? (c : Catalog) : List Token → Option Operator
  | [] => none
  | token :: _ =>
    match token.kind with
    | .symbol .operator => c.findOperator? token.text .binary
    | _ => none

/-- A part of an expression as it has been read. -/
inductive Phrase where
  /-- An expression below an operator, or below nothing. -/
  | expression (top : Option Operator) (t : Tree)
  /-- What a left operand has grown to below an operator, or below nothing. -/
  | chain (top : Option Operator) (left t : Tree)
  /-- A single operand. -/
  | operand (t : Tree)
  /-- The arguments of a call, with the bracket that closes it. -/
  | arguments (b : Brackets) (ts : List Tree)

/-- `Reads c phrase ts rest`: the phrase is read from the front of `ts`, and
`rest` is left. -/
inductive Reads (c : Catalog) : Phrase → List Token → List Token → Prop
  | expression {top : Option Operator} {left t : Tree} {ts mid rest : List Token} :
      Reads c (.operand left) ts mid → Reads c (.chain top left t) mid rest →
      Reads c (.expression top t) ts rest
  | stop {top : Option Operator} {left : Tree} {ts : List Token} :
      (∀ b, c.infix? ts = some b → Operator.reduces top b = true) →
      Reads c (.chain top left left) ts ts
  | extend {top : Option Operator} {b : Operator} {left right t : Tree} {token : Token}
      {ts mid rest : List Token} :
      c.infix? (token :: ts) = some b → Operator.reduces top b = false →
      Reads c (.expression (some b) right) ts mid →
      Reads c (.chain top (.binary b token left right) t) mid rest →
      Reads c (.chain top left t) (token :: ts) rest
  | literal {token : Token} {ts : List Token} :
      token.kind = .literal → Reads c (.operand (.literal token)) (token :: ts) ts
  | constant {k : Constant} {token : Token} {ts : List Token} :
      token.kind = .identifier → c.findConstant? token.text = some k →
      Reads c (.operand (.constant k token)) (token :: ts) ts
  | unary {u : Operator} {t : Tree} {token : Token} {ts rest : List Token} :
      token.kind = .symbol .operator → c.findOperator? token.text .unary = some u →
      Reads c (.expression (some u) t) ts rest →
      Reads c (.operand (.unary u token t)) (token :: ts) rest
  | group {b : Brackets} {t : Tree} {token close : Token} {ts rest : List Token} :
      token.kind = .symbol .opening → c.findExpressionBrackets? token.text = some b →
      Reads c (.expression none t) ts (close :: rest) →
      close.kind = .symbol .closing → b.closing = close.text →
      Reads c (.operand t) (token :: ts) rest
  | call {f : Function} {b : Brackets} {args : List Tree} {token next : Token}
      {ts rest : List Token} :
      token.kind = .identifier → c.findFunction? token.text = some f →
      next.kind = .symbol .opening → c.findFunctionBrackets? next.text = some b →
      Reads c (.arguments b args) ts rest → f.admits args.length = true →
      Reads c (.operand (.call f token args)) (token :: next :: ts) rest
  | emptyCall {f : Function} {b : Brackets} {token next close : Token} {rest : List Token} :
      token.kind = .identifier → c.findFunction? token.text = some f →
      next.kind = .symbol .opening → c.findFunctionBrackets? next.text = some b →
      close.kind = .symbol .closing → b.closing = close.text → f.admits 0 = true →
      Reads c (.operand (.call f token [])) (token :: next :: close :: rest) rest
  | last {b : Brackets} {t : Tree} {close : Token} {ts rest : List Token} :
      Reads c (.expression none t) ts (close :: rest) →
      close.kind = .symbol .closing → b.closing = close.text →
      Reads c (.arguments b [t]) ts rest
  | more {b : Brackets} {t : Tree} {args : List Tree} {separator : Token}
      {ts mid rest : List Token} :
      Reads c (.expression none t) ts (separator :: mid) →
      separator.kind = .symbol .separator → Reads c (.arguments b args) mid rest →
      Reads c (.arguments b (t :: args)) ts rest

/-- `Catalog.Accepts c tokens t`: the tokens as a whole are read as the tree. -/
def Catalog.Accepts (c : Catalog) (tokens : List Token) (t : Tree) : Prop :=
  Reads c (.expression none t) tokens []

/-! ## Where a phrase begins -/

/-- What is looked for, without what is found. -/
inductive Goal where
  | expression (top : Option Operator)
  | chain (top : Option Operator) (left : Tree)
  | operand
  | arguments (b : Brackets)

/-- The goal that a phrase is read for. -/
def Phrase.goal : Phrase → Goal
  | .expression top _ => .expression top
  | .chain top left _ => .chain top left
  | .operand _ => .operand
  | .arguments b _ => .arguments b

/-- The least number of tokens that a phrase read for a goal has. -/
def Goal.least : Goal → Nat
  | .chain .. => 0
  | _ => 1

/-- Whether the next token may start an operand. -/
def startsOperand : List Token → Bool
  | [] => false
  | token :: _ =>
    match token.kind with
    | .literal | .identifier | .symbol .operator | .symbol .opening => true
    | _ => false

variable {c : Catalog}

theorem Reads.length_le {p : Phrase} {ts rest : List Token} (h : Reads c p ts rest) :
    rest.length + p.goal.least ≤ ts.length := by
  induction h <;> simp only [Phrase.goal, Goal.least, List.length_cons] at * <;> omega

theorem Reads.startsOperand_eq {p : Phrase} {ts rest : List Token} (h : Reads c p ts rest)
    (hp : p.goal.least = 1) : startsOperand ts = true := by
  induction h with
  | expression _ _ ih _ => exact ih rfl
  | stop | extend => cases hp
  | literal hk | constant hk _ | unary hk _ _ | group hk _ _ _ _ | call hk _ _ _ _ _
  | emptyCall hk _ _ _ _ _ _ => simp only [startsOperand, hk]
  | last _ _ _ ih => exact ih rfl
  | more _ _ _ ih _ => exact ih rfl

/-! ## Nothing is left to choice

What stands in front, and what it is in the catalog, tells which rule has been used. -/

namespace Reads

variable {t left : Tree} {token : Token} {ts rest : List Token}

theorem of_literal (h : Reads c (.operand t) (token :: ts) rest) (hk : token.kind = .literal) :
    t = .literal token ∧ rest = ts := by
  cases h with
  | literal => exact ⟨rfl, rfl⟩
  | constant hk' | unary hk' | group hk' | call hk' | emptyCall hk' => cases hk.symm.trans hk'

theorem of_constant {k : Constant} (h : Reads c (.operand t) (token :: ts) rest)
    (hk : token.kind = .identifier) (hc : c.findConstant? token.text = some k) :
    t = .constant k token ∧ rest = ts := by
  cases h with
  | constant _ hc' =>
      cases hc.symm.trans hc'
      exact ⟨rfl, rfl⟩
  | call _ hf | emptyCall _ hf => cases (c.findFunction?_eq_none hc).symm.trans hf
  | literal hk' | unary hk' | group hk' => cases hk.symm.trans hk'

theorem of_unary {u : Operator} (h : Reads c (.operand t) (token :: ts) rest)
    (hk : token.kind = .symbol .operator) (hu : c.findOperator? token.text .unary = some u) :
    ∃ t', t = .unary u token t' ∧ Reads c (.expression (some u) t') ts rest := by
  cases h with
  | unary _ hu' h =>
      cases hu.symm.trans hu'
      exact ⟨_, rfl, h⟩
  | literal hk' | constant hk' | group hk' | call hk' | emptyCall hk' =>
      cases hk.symm.trans hk'

theorem of_group {b : Brackets} (h : Reads c (.operand t) (token :: ts) rest)
    (hk : token.kind = .symbol .opening) (hb : c.findExpressionBrackets? token.text = some b) :
    ∃ close, close.kind = .symbol .closing ∧ b.closing = close.text ∧
      Reads c (.expression none t) ts (close :: rest) := by
  cases h with
  | group _ hb' h hkc hbc =>
      cases hb.symm.trans hb'
      exact ⟨_, hkc, hbc, h⟩
  | literal hk' | constant hk' | unary hk' | call hk' | emptyCall hk' =>
      cases hk.symm.trans hk'

/-- The name of a function and a bracket, with arguments or without. -/
theorem of_call {f : Function} {b : Brackets} {next : Token}
    (h : Reads c (.operand t) (token :: next :: ts) rest) (hk : token.kind = .identifier)
    (hf : c.findFunction? token.text = some f)
    (hb : c.findFunctionBrackets? next.text = some b) :
    (∃ args, t = .call f token args ∧ Reads c (.arguments b args) ts rest) ∨
      ∃ close, t = .call f token [] ∧ ts = close :: rest ∧ close.kind = .symbol .closing := by
  cases h with
  | call _ hf' _ hb' ha =>
      cases hf.symm.trans hf'
      cases hb.symm.trans hb'
      exact .inl ⟨_, rfl, ha⟩
  | emptyCall _ hf' _ _ hkc =>
      cases hf.symm.trans hf'
      exact .inr ⟨_, rfl, rfl, hkc⟩
  | constant _ hc => cases (c.findFunction?_eq_none hc).symm.trans hf
  | literal hk' | unary hk' | group hk' => cases hk.symm.trans hk'

/-- Arguments begin with an operand, and no closing bracket does. -/
theorem not_arguments_of_closing {b : Brackets} {args : List Tree} {close : Token}
    (h : Reads c (.arguments b args) (close :: ts) rest) : close.kind ≠ .symbol .closing := by
  intro hk
  have hs := h.startsOperand_eq rfl
  simp only [startsOperand, hk] at hs
  cases hs

/-- Behind an argument there is the closing bracket, or a separator and more of them. -/
theorem of_arguments {b : Brackets} {args : List Tree} (h : Reads c (.arguments b args) ts rest) :
    ∃ (t : Tree) (args' : List Tree) (token : Token) (mid : List Token),
      args = t :: args' ∧ Reads c (.expression none t) ts (token :: mid) ∧
        (token.kind = .symbol .closing ∧ args' = [] ∧ mid = rest ∨
          token.kind = .symbol .separator ∧ Reads c (.arguments b args') mid rest) := by
  cases h with
  | last h hk => exact ⟨_, _, _, _, rfl, h, .inl ⟨hk, rfl, rfl⟩⟩
  | more h hk hmore => exact ⟨_, _, _, _, rfl, h, .inr ⟨hk, hmore⟩⟩

theorem of_stop {top : Option Operator} (h : Reads c (.chain top left t) ts rest)
    (hs : ∀ b, c.infix? ts = some b → Operator.reduces top b = true) : t = left ∧ rest = ts := by
  cases h with
  | stop => exact ⟨rfl, rfl⟩
  | extend hb hr =>
      rw [hs _ hb] at hr
      cases hr

theorem of_extend {top : Option Operator} {b : Operator}
    (h : Reads c (.chain top left t) (token :: ts) rest) (hb : c.infix? (token :: ts) = some b)
    (hr : Operator.reduces top b = false) :
    ∃ right mid, Reads c (.expression (some b) right) ts mid ∧
      Reads c (.chain top (.binary b token left right) t) mid rest := by
  cases h with
  | stop hs =>
      rw [hs _ hb] at hr
      cases hr
  | extend hb' _ h₁ h₂ =>
      cases hb.symm.trans hb'
      exact ⟨_, _, h₁, h₂⟩

end Reads

namespace Phrase

theorem eq_operand {p : Phrase} (h : Goal.operand = p.goal) : ∃ t, p = .operand t := by
  cases p with
  | operand t => exact ⟨t, rfl⟩
  | _ => cases h

theorem eq_expression {p : Phrase} {top : Option Operator} (h : Goal.expression top = p.goal) :
    ∃ t, p = .expression top t := by
  cases p with
  | expression _ t =>
      cases h
      exact ⟨t, rfl⟩
  | _ => cases h

theorem eq_chain {p : Phrase} {top : Option Operator} {left : Tree}
    (h : Goal.chain top left = p.goal) : ∃ t, p = .chain top left t := by
  cases p with
  | chain _ _ t =>
      cases h
      exact ⟨t, rfl⟩
  | _ => cases h

theorem eq_arguments {p : Phrase} {b : Brackets} (h : Goal.arguments b = p.goal) :
    ∃ args, p = .arguments b args := by
  cases p with
  | arguments _ args =>
      cases h
      exact ⟨args, rfl⟩
  | _ => cases h

end Phrase

/-- What stands at the front of given tokens for a given goal, and where it
ends, is determined. -/
theorem Reads.unique {p p' : Phrase} {ts rest rest' : List Token} (h : Reads c p ts rest)
    (h' : Reads c p' ts rest') (hg : p.goal = p'.goal) : p = p' ∧ rest = rest' := by
  induction h generalizing p' rest' with
  | expression _ _ ih₁ ih₂ =>
      obtain ⟨t', rfl⟩ := Phrase.eq_expression hg
      cases h' with
      | expression h₁' h₂' =>
          obtain ⟨hl, rfl⟩ := ih₁ h₁' rfl
          cases hl
          obtain ⟨ht, rfl⟩ := ih₂ h₂' rfl
          cases ht
          exact ⟨rfl, rfl⟩
  | stop hs =>
      obtain ⟨t', rfl⟩ := Phrase.eq_chain hg
      obtain ⟨rfl, rfl⟩ := h'.of_stop hs
      exact ⟨rfl, rfl⟩
  | extend hb hr _ _ ih₁ ih₂ =>
      obtain ⟨t', rfl⟩ := Phrase.eq_chain hg
      obtain ⟨right, mid, h₁', h₂'⟩ := h'.of_extend hb hr
      obtain ⟨hright, rfl⟩ := ih₁ h₁' rfl
      cases hright
      obtain ⟨ht, rfl⟩ := ih₂ h₂' rfl
      cases ht
      exact ⟨rfl, rfl⟩
  | literal hk =>
      obtain ⟨t', rfl⟩ := Phrase.eq_operand hg
      obtain ⟨rfl, rfl⟩ := h'.of_literal hk
      exact ⟨rfl, rfl⟩
  | constant hk hc =>
      obtain ⟨t', rfl⟩ := Phrase.eq_operand hg
      obtain ⟨rfl, rfl⟩ := h'.of_constant hk hc
      exact ⟨rfl, rfl⟩
  | unary hk hu _ ih =>
      obtain ⟨t', rfl⟩ := Phrase.eq_operand hg
      obtain ⟨operand, rfl, h₁'⟩ := h'.of_unary hk hu
      obtain ⟨ht, rfl⟩ := ih h₁' rfl
      cases ht
      exact ⟨rfl, rfl⟩
  | group hk hb _ _ _ ih =>
      obtain ⟨t', rfl⟩ := Phrase.eq_operand hg
      obtain ⟨close, -, -, h₁'⟩ := h'.of_group hk hb
      obtain ⟨ht, hr⟩ := ih h₁' rfl
      cases ht
      cases hr
      exact ⟨rfl, rfl⟩
  | call hk hf _ hb ha _ ih =>
      obtain ⟨t', rfl⟩ := Phrase.eq_operand hg
      rcases h'.of_call hk hf hb with ⟨args, rfl, ha'⟩ | ⟨close, rfl, rfl, hkc⟩
      · obtain ⟨hargs, rfl⟩ := ih ha' rfl
        cases hargs
        exact ⟨rfl, rfl⟩
      · exact absurd hkc ha.not_arguments_of_closing
  | emptyCall hk hf _ hb hkc =>
      obtain ⟨t', rfl⟩ := Phrase.eq_operand hg
      rcases h'.of_call hk hf hb with ⟨args, rfl, ha'⟩ | ⟨close, rfl, hts, -⟩
      · exact absurd hkc ha'.not_arguments_of_closing
      · cases hts
        exact ⟨rfl, rfl⟩
  | last _ hk _ ih =>
      obtain ⟨args, rfl⟩ := Phrase.eq_arguments hg
      obtain ⟨t', args', token, mid, rfl, h₁', hnext⟩ := h'.of_arguments
      obtain ⟨ht, hr⟩ := ih h₁' rfl
      cases ht
      cases hr
      rcases hnext with ⟨-, rfl, rfl⟩ | ⟨hk', -⟩
      · exact ⟨rfl, rfl⟩
      · cases hk.symm.trans hk'
  | more _ hk _ ih₁ ih₂ =>
      obtain ⟨args, rfl⟩ := Phrase.eq_arguments hg
      obtain ⟨t', args', token, mid, rfl, h₁', hnext⟩ := h'.of_arguments
      obtain ⟨ht, hr⟩ := ih₁ h₁' rfl
      cases ht
      cases hr
      rcases hnext with ⟨hk', -⟩ | ⟨-, h₂'⟩
      · cases hk.symm.trans hk'
      · obtain ⟨hargs, rfl⟩ := ih₂ h₂' rfl
        cases hargs
        exact ⟨rfl, rfl⟩

end Reckoner
