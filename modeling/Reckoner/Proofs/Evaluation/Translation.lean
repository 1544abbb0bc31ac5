/-
# Evaluating the same in other words

A token stands for an operator, a function or a constant, and which one depends
on where it stands: behind an operand an operator is the binary one.
`Definition.meaning?` says what it is.

A `Translation` gives other texts to operators, functions and constants and
leaves alone what they compute, how many operands they take and how they bind.
If the tokens of one catalog and those of another stand for the same, up to a
translation, then each move of the one evaluation is a move of the other
(`Moves.translate`), and whatever the first comes to, the second comes to by
the same steps (`Renders.ofTokens`).
-/
import Mathlib.Data.List.Forall2
import Reckoner.Proofs.Evaluation.Application

namespace Reckoner

/-! ## What tokens stand for -/

/-- Whether an operand may end with a token. -/
def Token.closesOperand (t : Token) : Bool :=
  match t.kind with
  | .literal | .identifier | .symbol .closing => true
  | _ => false

/-- Whether the latest token ended an operand. -/
def Previous.isOperand : Previous → Bool
  | .operand => true
  | _ => false

theorem Previous.isOperand_eq_false {p : Previous} (h : p ≠ .operand) : p.isOperand = false := by
  cases p with
  | operand => exact absurd rfl h
  | start | operator | opening | separator => rfl

/-- Whether tokens of a kind stand for something that a catalog declares. -/
def Token.Kind.isDeclared : Token.Kind → Bool
  | .identifier | .symbol .operator => true
  | _ => false

/-- What a token stands for behind an operand, or where one is due. -/
def Definition.meaning? (d : Definition) (behind : Bool) (t : Token) : Option Applied :=
  match t.kind with
  | .symbol .operator =>
    (d.findOperator? t.text (if behind then .binary else .unary)).map .operator
  | .identifier =>
    match d.findFunction? t.text with
    | some f => some (.function f)
    | none => (d.findConstant? t.text).map .constant
  | _ => none

/-- `d.Declares behind ts`: all that stands among the tokens is declared;
`behind` tells whether an operand has ended in front of them. -/
def Definition.Declares (d : Definition) : Bool → List Token → Prop
  | _, [] => True
  | behind, t :: ts =>
    (t.kind.isDeclared = true → ∃ a, d.meaning? behind t = some a) ∧ d.Declares t.closesOperand ts

section

variable {d : Definition} {t : Token}

theorem Definition.meaning?_unary {op : Operator} (hk : t.kind = .symbol .operator)
    (h : d.findOperator? t.text .unary = some op) : d.meaning? false t = some (.operator op) := by
  simp only [meaning?, hk, Bool.false_eq_true, if_false, h, Option.map_some]

theorem Definition.meaning?_binary {op : Operator} (hk : t.kind = .symbol .operator)
    (h : d.findOperator? t.text .binary = some op) : d.meaning? true t = some (.operator op) := by
  simp only [meaning?, hk, if_true, h, Option.map_some]

theorem Definition.meaning?_function {f : Function} (behind : Bool) (hk : t.kind = .identifier)
    (h : d.findFunction? t.text = some f) : d.meaning? behind t = some (.function f) := by
  simp only [meaning?, hk, h]

theorem Definition.meaning?_constant {k : Constant} (behind : Bool) (hk : t.kind = .identifier)
    (hf : d.findFunction? t.text = none) (h : d.findConstant? t.text = some k) :
    d.meaning? behind t = some (.constant k) := by
  simp only [meaning?, hk, hf, h, Option.map_some]

theorem Definition.findOperator?_of_meaning? {op : Operator} {behind : Bool}
    (hk : t.kind = .symbol .operator) (h : d.meaning? behind t = some (.operator op)) :
    d.findOperator? t.text (if behind then .binary else .unary) = some op := by
  simp only [meaning?, hk] at h
  obtain ⟨op', hop', he⟩ := Option.map_eq_some_iff.mp h
  cases he
  exact hop'

theorem Definition.findFunction?_of_meaning? {f : Function} {behind : Bool}
    (hk : t.kind = .identifier) (h : d.meaning? behind t = some (.function f)) :
    d.findFunction? t.text = some f := by
  simp only [meaning?, hk] at h
  split at h
  · next hf =>
      cases h
      exact hf
  · obtain ⟨_, _, he⟩ := Option.map_eq_some_iff.mp h
    cases he

theorem Definition.findConstant?_of_meaning? {k : Constant} {behind : Bool}
    (hk : t.kind = .identifier) (h : d.meaning? behind t = some (.constant k)) :
    d.findFunction? t.text = none ∧ d.findConstant? t.text = some k := by
  simp only [meaning?, hk] at h
  split at h
  · cases h
  · next hf =>
      obtain ⟨k', hk', he⟩ := Option.map_eq_some_iff.mp h
      cases he
      exact ⟨hf, hk'⟩

end

/-- A name or an operator that is taken is declared. -/
theorem Moves.declares {c : Catalog} {n : Numerics} {m m' : Moment} (h : Moves c n m m')
    (hd : c.Declares m'.state.previous.isOperand m'.tokens) :
    c.Declares m.state.previous.isOperand m.tokens := by
  cases h with
  | apply _ _ => exact hd
  | literal hk hp _ =>
      refine ⟨fun h => ?_, ?_⟩
      · rw [hk] at h
        cases h
      · rwa [Token.closesOperand, hk]
  | constant hk hp hf hc _ =>
      refine ⟨fun _ => ⟨_, Definition.meaning?_constant _ hk hf hc⟩, ?_⟩
      rwa [Token.closesOperand, hk]
  | function hk hp hf hkn hb =>
      refine ⟨fun _ => ⟨_, Definition.meaning?_function _ hk hf⟩, fun h => ?_, ?_⟩
      · rw [hkn] at h
        cases h
      · rwa [Token.closesOperand, hkn]
  | @unary _ _ _ _ _ op hk hp ho =>
      refine ⟨fun _ => ⟨.operator op, ?_⟩, ?_⟩
      · rw [Previous.isOperand_eq_false hp]
        exact Definition.meaning?_unary hk ho
      · rwa [Token.closesOperand, hk]
  | binary hk ho _ =>
      refine ⟨fun _ => ⟨_, Definition.meaning?_binary hk ho⟩, ?_⟩
      rwa [Token.closesOperand, hk]
  | group hk _ _ | separator hk | closeGroup hk _ | closeCall hk _ _ | closeEmptyCall hk _ _ =>
      refine ⟨fun h => ?_, ?_⟩
      · rw [hk] at h
        cases h
      · rwa [Token.closesOperand, hk]

/-- All that stands among the tokens of an evaluation that gives a value is
declared. -/
theorem Leads.declares {c : Catalog} {n : Numerics} {m m' : Moment} (h : Leads c n m m')
    (hd : c.Declares m'.state.previous.isOperand m'.tokens) :
    c.Declares m.state.previous.isOperand m.tokens := by
  induction h with
  | refl => exact hd
  | step h₁ _ ih => exact h₁.declares (ih hd)

/-! ## Translations -/

/-- Other texts for operators, functions and constants, which stay the same
otherwise. -/
structure Translation where
  operator : Operator → Operator
  function : Function → Function
  constant : Constant → Constant
  operator_eq : ∀ op, operator op = { op with symbol := (operator op).symbol }
  function_eq : ∀ f, function f = { f with name := (function f).name }
  constant_eq : ∀ k, constant k = { k with name := (constant k).name }

namespace Translation

variable (tr : Translation) {c c' : Catalog} {n : Numerics}

/-- The translation of what is applied. -/
def apply : Applied → Applied
  | .operator op => .operator (tr.operator op)
  | .function f => .function (tr.function f)
  | .constant k => .constant (tr.constant k)

/-- A step that says the same of the same operands. -/
structure Repeats (s s' : Step) : Prop where
  applied : s'.applied = tr.apply s.applied
  operands : s'.operands = s.operands
  result : s'.result = s.result

/-- The same values wait, and the steps are repeated. -/
structure Works (w w' : Work) : Prop where
  operands : w'.operands = w.operands
  steps : List.Forall₂ tr.Repeats w.steps w'.steps

/-- The same is not finished, for another token. -/
inductive Waits : Pending → Pending → Prop
  | operator (op : Operator) (token token' : Token) :
      Waits (.operator op token) (.operator (tr.operator op) token')
  | call (f : Function) (token token' : Token) (b : Brackets) (separators base : Nat) :
      Waits (.call f token b separators base) (.call (tr.function f) token' b separators base)
  | group (b : Brackets) (token token' : Token) : Waits (.group b token) (.group b token')

/-- `tr.Renders c c' behind ts ts'`: token by token, `ts'` stand in `c'` for the
translation of what `ts` stand for in `c`, and are the same where they stand
for nothing that is declared. -/
inductive Renders (c c' : Catalog) : Bool → List Token → List Token → Prop
  | nil {behind : Bool} : Renders c c' behind [] []
  | cons {behind : Bool} {t t' : Token} {ts ts' : List Token} :
      t'.kind = t.kind →
      (∀ a, c.meaning? behind t = some a → c'.meaning? behind t' = some (tr.apply a)) →
      (t.kind.isDeclared = false → t'.text = t.text) →
      Renders c c' t.closesOperand ts ts' → Renders c c' behind (t :: ts) (t' :: ts')

/-- Moments of two evaluations that say the same. -/
inductive Alike (c c' : Catalog) : Moment → Moment → Prop
  | mk {w w' : Work} {pending pending' : List Pending} {previous : Previous}
      {ts ts' : List Token} :
      tr.Works w w' → List.Forall₂ tr.Waits pending pending' →
      tr.Renders c c' previous.isOperand ts ts' →
      Alike c c' ⟨⟨w, pending, previous⟩, ts⟩ ⟨⟨w', pending', previous⟩, ts'⟩

theorem arity_operator (op : Operator) : (tr.operator op).arity = op.arity := by
  rw [tr.operator_eq]

theorem admits_function (f : Function) (count : Nat) :
    (tr.function f).admits count = f.admits count := by
  rw [tr.function_eq]
  rfl

theorem yieldsTo_operator (op next : Operator) :
    (tr.operator op).yieldsTo (tr.operator next) = op.yieldsTo next := by
  rw [tr.operator_eq op, tr.operator_eq next]
  rfl

/-- A translation computes the same. -/
theorem outcome_apply (p : Nat) (draw : Decimal) (a : Applied) (xs : List Number) :
    (tr.apply a).outcome p draw xs = a.outcome p draw xs := by
  cases a with
  | operator op =>
      simp only [apply, Applied.outcome]
      rw [tr.operator_eq]
      rfl
  | function f =>
      simp only [apply, Applied.outcome]
      rw [tr.function_eq]
  | constant k =>
      simp only [apply, Applied.outcome]
      rw [tr.constant_eq]

variable {tr}

/-! ### Applications -/

section

variable {w w₁ w' : Work} (hw : tr.Works w w') (token' : Token)

include hw

theorem Works.performed (a : Applied) (count : Nat) (x : Number) (token : Token) :
    tr.Works (w.performed a count x token) (w'.performed (tr.apply a) count x token') where
  operands := by rw [Work.performed, Work.performed, hw.operands]
  steps := .cons ⟨rfl, by rw [hw.operands], rfl⟩ hw.steps

theorem Works.length_steps : w'.steps.length = w.steps.length := hw.steps.length_eq.symm

theorem Works.applyOperator {op : Operator} {token : Token}
    (h : w.applyOperator n op token = .ok w₁) :
    ∃ w₁', w'.applyOperator n (tr.operator op) token' = .ok w₁' ∧ tr.Works w₁ w₁' := by
  obtain ⟨hcount, x, hx, rfl⟩ := Work.applyOperator_eq_ok.mp h
  refine ⟨_, Work.applyOperator_eq_ok.mpr ⟨?_, x, ?_, rfl⟩, ?_⟩
  · rwa [tr.arity_operator, hw.operands]
  · rw [tr.arity_operator, hw.operands]
    exact (tr.outcome_apply n.precision Decimal.zero (.operator op) _).trans hx
  · rw [tr.arity_operator]
    exact hw.performed token' (.operator op) _ x token

theorem Works.applyConstant {k : Constant} {token : Token}
    (h : w.applyConstant n k token = .ok w₁) :
    ∃ w₁', w'.applyConstant n (tr.constant k) token' = .ok w₁' ∧ tr.Works w₁ w₁' := by
  obtain ⟨x, hx, rfl⟩ := Work.applyConstant_eq_ok.mp h
  refine ⟨_, Work.applyConstant_eq_ok.mpr ⟨x, ?_, rfl⟩, ?_⟩
  · exact (tr.outcome_apply n.precision Decimal.zero (.constant k) []).trans hx
  · exact hw.performed token' (.constant k) 0 x token

theorem Works.finishCall {f : Function} {name : Token} {base count : Nat}
    (h : State.finishCall n w f name base count = .ok w₁) :
    ∃ w₁', State.finishCall n w' (tr.function f) token' base count = .ok w₁' ∧
      tr.Works w₁ w₁' := by
  obtain ⟨hlength, hadmits, h⟩ := State.finishCall_eq_ok.mp h
  obtain ⟨x, hx, rfl⟩ := Work.applyFunction_eq_ok.mp h
  refine ⟨_, State.finishCall_eq_ok.mpr ⟨?_, ?_, Work.applyFunction_eq_ok.mpr ⟨x, ?_, rfl⟩⟩, ?_⟩
  · rw [hw.operands, hlength]
  · rw [tr.admits_function, hadmits]
  · rw [hw.operands, hw.length_steps]
    exact (tr.outcome_apply n.precision _ (.function f) _).trans hx
  · exact hw.performed token' (.function f) count x name

end

/-! ### Moves -/

/-- What a translation makes of the operator in front of a pending list. -/
theorem top_of_waits {pending pending' : List Pending}
    (h : List.Forall₂ tr.Waits pending pending') :
    Pending.top pending' = (Pending.top pending).map tr.operator := by
  cases h with
  | nil => rfl
  | cons hw _ => cases hw <;> rfl

theorem reduces_of_waits {pending pending' : List Pending} {op : Operator}
    (h : List.Forall₂ tr.Waits pending pending') :
    Operator.reduces (Pending.top pending') (tr.operator op) =
      Operator.reduces (Pending.top pending) op := by
  rw [top_of_waits h]
  cases Pending.top pending with
  | none => rfl
  | some top => exact tr.yieldsTo_operator top op

/-- An operator is due where its translation is. -/
theorem isDue_of_renders {op : Operator} {ts ts' : List Token}
    (h : tr.Renders c c' true ts ts') (hd : op.isDue c ts = true) :
    (tr.operator op).isDue c' ts' = true := by
  cases h with
  | nil => rfl
  | cons hkind hmeaning htext _ =>
      simp only [Operator.isDue, hkind] at hd ⊢
      split at hd
      · next hk =>
          split at hd
          · next next hnext =>
              have h' := Definition.findOperator?_of_meaning? (hkind.trans hk)
                (hmeaning _ (Definition.meaning?_binary hk hnext))
              simp only [if_true] at h' ⊢
              rw [h']
              exact (tr.yieldsTo_operator op next).trans hd
          · cases hd
      · rfl
      · rfl
      · cases hd

end Translation

section

variable {tr : Translation} {c c' : Catalog} {n : Numerics}

namespace Translation

/-! ### One rule after the other -/

section

variable {w w₁ w' : Work} {pending pending' : List Pending} {previous : Previous} {token : Token}
  {ts ts' : List Token}

theorem translate_apply {op : Operator} (hw : tr.Works w w')
    (hp : List.Forall₂ tr.Waits (.operator op token :: pending) pending')
    (ht : tr.Renders c c' true ts ts') (hd : op.isDue c ts = true)
    (h : w.applyOperator n op token = .ok w₁) :
    ∃ m', Moves c' n ⟨⟨w', pending', .operand⟩, ts'⟩ m' ∧
      tr.Alike c c' ⟨⟨w₁, pending, .operand⟩, ts⟩ m' := by
  cases hp with
  | cons hop hp =>
      cases hop with
      | operator _ _ token' =>
          obtain ⟨w₁', h', hw'⟩ := hw.applyOperator token' h
          exact ⟨_, .apply (isDue_of_renders ht hd) h', hw', hp, ht⟩

theorem translate_literal {x : Number} (hw : tr.Works w w')
    (hp : List.Forall₂ tr.Waits pending pending')
    (ht : tr.Renders c c' previous.isOperand (token :: ts) ts') (hk : token.kind = .literal)
    (hprev : previous ≠ .operand) (hx : Number.parse n.precision token.text = .ok x) :
    ∃ m', Moves c' n ⟨⟨w', pending', previous⟩, ts'⟩ m' ∧
      tr.Alike c c' ⟨⟨w.push x, pending, .operand⟩, ts⟩ m' := by
  cases ht with
  | cons hkind _ htext ht =>
      rw [Token.closesOperand, hk] at ht
      rw [← htext (by rw [hk]; rfl)] at hx
      exact ⟨_, .literal (hkind.trans hk) hprev hx,
        ⟨congrArg (_ :: ·) hw.operands, hw.steps⟩, hp, ht⟩

theorem translate_constant {k : Constant} (hw : tr.Works w w')
    (hp : List.Forall₂ tr.Waits pending pending')
    (ht : tr.Renders c c' previous.isOperand (token :: ts) ts') (hk : token.kind = .identifier)
    (hprev : previous ≠ .operand) (hf : c.findFunction? token.text = none)
    (hc : c.findConstant? token.text = some k) (h : w.applyConstant n k token = .ok w₁) :
    ∃ m', Moves c' n ⟨⟨w', pending', previous⟩, ts'⟩ m' ∧
      tr.Alike c c' ⟨⟨w₁, pending, .operand⟩, ts⟩ m' := by
  cases ht with
  | @cons _ _ t' _ _ hkind hmeaning _ ht =>
      rw [Token.closesOperand, hk] at ht
      obtain ⟨hnone, hconstant⟩ := Definition.findConstant?_of_meaning? (hkind.trans hk)
        (hmeaning _ (Definition.meaning?_constant _ hk hf hc))
      obtain ⟨w₁', h', hw'⟩ := hw.applyConstant t' h
      exact ⟨_, .constant (hkind.trans hk) hprev hnone hconstant h', hw', hp, ht⟩

theorem translate_function {f : Function} {b : Brackets} {next : Token} (hw : tr.Works w w')
    (hp : List.Forall₂ tr.Waits pending pending')
    (ht : tr.Renders c c' previous.isOperand (token :: next :: ts) ts')
    (hbrackets : c'.functionBrackets = c.functionBrackets) (hk : token.kind = .identifier)
    (hprev : previous ≠ .operand) (hf : c.findFunction? token.text = some f)
    (hkn : next.kind = .symbol .opening) (hb : c.findFunctionBrackets? next.text = some b) :
    ∃ m', Moves c' n ⟨⟨w', pending', previous⟩, ts'⟩ m' ∧
      tr.Alike c c'
        ⟨⟨w, .call f token b 0 w.operands.length :: pending, .opening⟩, ts⟩ m' := by
  cases ht with
  | @cons _ _ t' _ _ hkind hmeaning _ ht =>
      have hf' := Definition.findFunction?_of_meaning? (hkind.trans hk)
        (hmeaning _ (Definition.meaning?_function _ hk hf))
      cases ht with
      | cons hkindn _ htextn ht =>
          rw [Token.closesOperand, hkn] at ht
          rw [Definition.findFunctionBrackets?, ← hbrackets, ← htextn (by rw [hkn]; rfl)] at hb
          refine ⟨_, .function (hkind.trans hk) hprev hf' (hkindn.trans hkn) hb, hw,
            .cons ?_ hp, ht⟩
          rw [hw.operands]
          exact .call _ _ t' _ _ _

theorem translate_unary {op : Operator} (hw : tr.Works w w')
    (hp : List.Forall₂ tr.Waits pending pending')
    (ht : tr.Renders c c' previous.isOperand (token :: ts) ts')
    (hk : token.kind = .symbol .operator) (hprev : previous ≠ .operand)
    (hop : c.findOperator? token.text .unary = some op) :
    ∃ m', Moves c' n ⟨⟨w', pending', previous⟩, ts'⟩ m' ∧
      tr.Alike c c' ⟨⟨w, .operator op token :: pending, .operator⟩, ts⟩ m' := by
  cases ht with
  | @cons _ _ t' _ _ hkind hmeaning _ ht =>
      rw [Previous.isOperand_eq_false hprev] at hmeaning
      rw [Token.closesOperand, hk] at ht
      have hop' := Definition.findOperator?_of_meaning? (hkind.trans hk)
        (hmeaning _ (Definition.meaning?_unary hk hop))
      exact ⟨_, .unary (hkind.trans hk) hprev hop', hw, .cons (.operator _ _ t') hp, ht⟩

theorem translate_binary {op : Operator} (hw : tr.Works w w')
    (hp : List.Forall₂ tr.Waits pending pending')
    (ht : tr.Renders c c' true (token :: ts) ts') (hk : token.kind = .symbol .operator)
    (hop : c.findOperator? token.text .binary = some op)
    (hr : Operator.reduces (Pending.top pending) op = false) :
    ∃ m', Moves c' n ⟨⟨w', pending', .operand⟩, ts'⟩ m' ∧
      tr.Alike c c' ⟨⟨w, .operator op token :: pending, .operator⟩, ts⟩ m' := by
  cases ht with
  | @cons _ _ t' _ _ hkind hmeaning _ ht =>
      rw [Token.closesOperand, hk] at ht
      have hop' := Definition.findOperator?_of_meaning? (hkind.trans hk)
        (hmeaning _ (Definition.meaning?_binary hk hop))
      exact ⟨_, .binary (hkind.trans hk) hop' ((reduces_of_waits hp).trans hr), hw,
        .cons (.operator _ _ t') hp, ht⟩

theorem translate_group {b : Brackets} (hw : tr.Works w w')
    (hp : List.Forall₂ tr.Waits pending pending')
    (ht : tr.Renders c c' previous.isOperand (token :: ts) ts')
    (hbrackets : c'.expressionBrackets = c.expressionBrackets)
    (hk : token.kind = .symbol .opening) (hprev : previous ≠ .operand)
    (hb : c.findExpressionBrackets? token.text = some b) :
    ∃ m', Moves c' n ⟨⟨w', pending', previous⟩, ts'⟩ m' ∧
      tr.Alike c c' ⟨⟨w, .group b token :: pending, .opening⟩, ts⟩ m' := by
  cases ht with
  | @cons _ _ t' _ _ hkind _ htext ht =>
      rw [Token.closesOperand, hk] at ht
      rw [Definition.findExpressionBrackets?, ← hbrackets, ← htext (by rw [hk]; rfl)] at hb
      exact ⟨_, .group (hkind.trans hk) hprev hb, hw, .cons (.group _ _ t') hp, ht⟩

theorem translate_separator {f : Function} {name : Token} {b : Brackets} {separators base : Nat}
    (hw : tr.Works w w')
    (hp : List.Forall₂ tr.Waits (.call f name b separators base :: pending) pending')
    (ht : tr.Renders c c' true (token :: ts) ts') (hk : token.kind = .symbol .separator) :
    ∃ m', Moves c' n ⟨⟨w', pending', .operand⟩, ts'⟩ m' ∧
      tr.Alike c c'
        ⟨⟨w, .call f name b (separators + 1) base :: pending, .separator⟩, ts⟩ m' := by
  cases hp with
  | cons hcall hp =>
      cases hcall with
      | call _ _ name' _ _ _ =>
          cases ht with
          | cons hkind _ _ ht =>
              rw [Token.closesOperand, hk] at ht
              exact ⟨_, .separator (hkind.trans hk), hw, .cons (.call _ _ name' _ _ _) hp, ht⟩

theorem translate_closeGroup {b : Brackets} {opener : Token} (hw : tr.Works w w')
    (hp : List.Forall₂ tr.Waits (.group b opener :: pending) pending')
    (ht : tr.Renders c c' true (token :: ts) ts') (hk : token.kind = .symbol .closing)
    (hb : b.closing = token.text) :
    ∃ m', Moves c' n ⟨⟨w', pending', .operand⟩, ts'⟩ m' ∧
      tr.Alike c c' ⟨⟨w, pending, .operand⟩, ts⟩ m' := by
  cases hp with
  | cons hgroup hp =>
      cases hgroup with
      | group _ _ opener' =>
          cases ht with
          | cons hkind _ htext ht =>
              rw [Token.closesOperand, hk] at ht
              refine ⟨_, .closeGroup (hkind.trans hk) ?_, hw, hp, ht⟩
              rw [hb, htext (by rw [hk]; rfl)]

/-- Closing a call with arguments, and one without. -/
theorem translate_closeCall {f : Function} {name : Token} {b : Brackets}
    {separators base count : Nat} (hw : tr.Works w w')
    (hp : List.Forall₂ tr.Waits (.call f name b separators base :: pending) pending')
    (ht : tr.Renders c c' previous.isOperand (token :: ts) ts')
    (hprev : previous = .operand ∧ count = separators + 1 ∨ previous = .opening ∧ count = 0)
    (hk : token.kind = .symbol .closing) (hb : b.closing = token.text)
    (h : State.finishCall n w f name base count = .ok w₁) :
    ∃ m', Moves c' n ⟨⟨w', pending', previous⟩, ts'⟩ m' ∧
      tr.Alike c c' ⟨⟨w₁, pending, .operand⟩, ts⟩ m' := by
  cases hp with
  | cons hcall hp =>
      cases hcall with
      | call _ _ name' _ _ _ =>
          cases ht with
          | cons hkind _ htext ht =>
              rw [Token.closesOperand, hk] at ht
              obtain ⟨w₁', h', hw'⟩ := hw.finishCall name' h
              have hb' := hb.trans (htext (by rw [hk]; rfl)).symm
              rcases hprev with ⟨rfl, rfl⟩ | ⟨rfl, rfl⟩
              · exact ⟨_, .closeCall (hkind.trans hk) hb' h', hw', hp, ht⟩
              · exact ⟨_, .closeEmptyCall (hkind.trans hk) hb' h', hw', hp, ht⟩

end

end Translation

/-- A move is repeated in the other words. -/
theorem Moves.translate {m m₁ m' : Moment} (h : Moves c n m m₁) (ha : tr.Alike c c' m m')
    (hf : c'.functionBrackets = c.functionBrackets)
    (he : c'.expressionBrackets = c.expressionBrackets) :
    ∃ m₁', Moves c' n m' m₁' ∧ tr.Alike c c' m₁ m₁' := by
  obtain ⟨hw, hp, ht⟩ := ha
  cases h with
  | apply hd h => exact Translation.translate_apply hw hp ht hd h
  | literal hk hprev hx => exact Translation.translate_literal hw hp ht hk hprev hx
  | constant hk hprev hnone hc h =>
      exact Translation.translate_constant hw hp ht hk hprev hnone hc h
  | function hk hprev hfind hkn hb =>
      exact Translation.translate_function hw hp ht hf hk hprev hfind hkn hb
  | unary hk hprev hop => exact Translation.translate_unary hw hp ht hk hprev hop
  | binary hk hop hr => exact Translation.translate_binary hw hp ht hk hop hr
  | group hk hprev hb => exact Translation.translate_group hw hp ht he hk hprev hb
  | separator hk => exact Translation.translate_separator hw hp ht hk
  | closeGroup hk hb => exact Translation.translate_closeGroup hw hp ht hk hb
  | closeCall hk hb h =>
      exact Translation.translate_closeCall hw hp ht (.inl ⟨rfl, rfl⟩) hk hb h
  | closeEmptyCall hk hb h =>
      exact Translation.translate_closeCall hw hp ht (.inr ⟨rfl, rfl⟩) hk hb h

theorem Leads.translate {m m₁ m' : Moment} (h : Leads c n m m₁) (ha : tr.Alike c c' m m')
    (hf : c'.functionBrackets = c.functionBrackets)
    (he : c'.expressionBrackets = c.expressionBrackets) :
    ∃ m₁', Leads c' n m' m₁' ∧ tr.Alike c c' m₁ m₁' := by
  induction h generalizing m' with
  | refl => exact ⟨m', .refl m', ha⟩
  | step h₁ _ ih =>
      obtain ⟨m₂', h₁', ha₂⟩ := h₁.translate ha hf he
      obtain ⟨m₁', hl, ha₁⟩ := ih ha₂
      exact ⟨m₁', .step h₁' hl, ha₁⟩

/-- Tokens that say the same come to the same value by the same steps. -/
theorem Translation.Renders.ofTokens {tokens tokens' : List Token} {width : Nat} {x : Number}
    (ht : tr.Renders c c' false tokens tokens') (width' : Nat)
    (hf : c'.functionBrackets = c.functionBrackets)
    (he : c'.expressionBrackets = c.expressionBrackets)
    (h : (Evaluation.ofTokens c n width tokens).result = .ok x) :
    (Evaluation.ofTokens c' n width' tokens').result = .ok x ∧
      List.Forall₂ tr.Repeats (Evaluation.ofTokens c n width tokens).steps
        (Evaluation.ofTokens c' n width' tokens').steps := by
  obtain ⟨steps, hl⟩ := Leads.exists_of_ok h
  have hstart : tr.Alike c c' (.start tokens) (.start tokens') := .mk ⟨rfl, .nil⟩ .nil ht
  obtain ⟨m', hl', ha⟩ := hl.translate hstart hf he
  cases ha with
  | @mk _ w' _ _ _ _ _ hw hp ht =>
      cases hp
      cases ht
      obtain ⟨operands', steps'⟩ := w'
      cases hw.operands
      rw [hl.ofTokens_eq, hl'.ofTokens_eq]
      exact ⟨rfl, List.rel_reverse hw.steps⟩

end

end Reckoner
