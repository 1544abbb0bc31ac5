/-
# What the value of a tree depends on

Where tokens stand and how tightly operators bind decide how tokens are read.
Of a tree that has been read neither counts any more.  The outline of a thing
is the thing without them:

    outline of      left out
    an operator     its precedence
    a token         its place
    a step          the precedence and the place of what was applied
    a tree          both, at every node

**Proved here.**

    an outline has the value of its tree, by the outlines of its steps  (`Tree.eval_outline`)
    tokens with one outline are read as trees with one outline          (`Reads.relocated`)
    trees with one outline come to the same                             (`Accepts.ofSource_agrees`)

Two catalogs, two lists of tokens and two trees may be behind the last of
them: this is how a catalog is compared with one that binds otherwise.
-/
import Mathlib.Data.List.Forall2
import Reckoner.Proofs.Evaluation.Relabelling
import Reckoner.Proofs.Grammar.Agreement

namespace Reckoner

/-- An operator without how tightly it binds. -/
def Operator.outline (op : Operator) : Operator := { op with precedence := .ofNat 0 }

/-- A token without where it stands. -/
def Token.outline (t : Token) : Token := { t with start := 0, stop := 0 }

def Applied.outline : Applied → Applied
  | operator op => operator op.outline
  | function f => function f
  | constant k => constant k

def Step.outline (s : Step) : Step := { s with applied := s.applied.outline, index := 0 }

namespace Tree

mutual

/-- The tree with other operators and tokens at its nodes. -/
def map (f : Operator → Operator) (g : Token → Token) : Tree → Tree
  | .literal token => .literal (g token)
  | .constant k token => .constant k (g token)
  | .unary op token t => .unary (f op) (g token) (t.map f g)
  | .binary op token l r => .binary (f op) (g token) (l.map f g) (r.map f g)
  | .call fn token ts => .call fn (g token) (mapAll f g ts)

def mapAll (f : Operator → Operator) (g : Token → Token) : List Tree → List Tree
  | [] => []
  | t :: ts => t.map f g :: mapAll f g ts

end

def outline (t : Tree) : Tree := t.map Operator.outline Token.outline

def outlineAll (ts : List Tree) : List Tree := mapAll Operator.outline Token.outline ts

theorem length_mapAll (f : Operator → Operator) (g : Token → Token) (ts : List Tree) :
    (mapAll f g ts).length = ts.length := by
  induction ts with
  | nil => rfl
  | cons t ts ih => simp only [mapAll, List.length_cons, ih]

theorem length_of_outlineAll {ts ts' : List Tree} (h : outlineAll ts' = outlineAll ts) :
    ts'.length = ts.length := by
  have := congrArg List.length h
  rwa [outlineAll, outlineAll, length_mapAll, length_mapAll] at this

mutual

theorem map_map (f f' : Operator → Operator) (g g' : Token → Token) (t : Tree) :
    (t.map f g).map f' g' = t.map (f' ∘ f) (g' ∘ g) := by
  cases t with
  | literal | constant => rfl
  | unary op token t => simp only [map, map_map f f' g g' t, Function.comp_apply]
  | binary op token l r =>
      simp only [map, map_map f f' g g' l, map_map f f' g g' r, Function.comp_apply]
  | call fn token ts => simp only [map, mapAll_mapAll f f' g g' ts, Function.comp_apply]
termination_by structural t

theorem mapAll_mapAll (f f' : Operator → Operator) (g g' : Token → Token) (ts : List Tree) :
    mapAll f' g' (mapAll f g ts) = mapAll (f' ∘ f) (g' ∘ g) ts := by
  cases ts with
  | nil => rfl
  | cons t ts => simp only [mapAll, map_map f f' g g' t, mapAll_mapAll f f' g g' ts]
termination_by structural ts

end

/-! ## Evaluating an outline -/

variable {n : Numerics}

theorem record_outline (applied : Applied) (operands : List Number) (token : Token)
    (steps : List Step) (outcome : Outcome) :
    record applied.outline operands token.outline (steps.map Step.outline) outcome =
      (record applied operands token steps outcome).map (Prod.map id (List.map Step.outline)) := by
  cases outcome <;> rfl

mutual

/-- What is left out of an outline is looked at by no evaluation. -/
theorem eval_outline (t : Tree) (steps : List Step) :
    t.outline.eval n (steps.map Step.outline) =
      (t.eval n steps).map (Prod.map id (List.map Step.outline)) := by
  cases t with
  | literal token =>
      simp only [outline, map, eval, Token.outline]
      cases Number.parse n.precision token.text <;> rfl
  | constant k token => exact record_outline (.constant k) [] token steps _
  | unary op token t =>
      have ht := eval_outline t steps
      simp only [outline, map, eval] at ht ⊢
      rw [ht]
      cases t.eval n steps with
      | error e => rfl
      | ok r => exact record_outline (.operator op) [r.1] token r.2 _
  | binary op token l r =>
      have hl := eval_outline l steps
      simp only [outline, map, eval] at hl ⊢
      rw [hl]
      cases l.eval n steps with
      | error e => rfl
      | ok a =>
          have hr := eval_outline r a.2
          simp only [outline] at hr
          simp only [Except.map, ok_bind, Prod.map_fst, Prod.map_snd, id_eq, hr]
          cases r.eval n a.2 with
          | error e => rfl
          | ok b => exact record_outline (.operator op) [a.1, b.1] token b.2 _
  | call f token ts =>
      have hts := evalAll_outline ts steps
      simp only [outline, outlineAll, map, eval] at hts ⊢
      rw [hts]
      cases evalAll n ts steps with
      | error e => rfl
      | ok r =>
          simp only [Except.map, ok_bind, Prod.map_fst, Prod.map_snd, id_eq, List.length_map]
          exact record_outline (.function f) r.1 token r.2 _
termination_by structural t

theorem evalAll_outline (ts : List Tree) (steps : List Step) :
    evalAll n (outlineAll ts) (steps.map Step.outline) =
      (evalAll n ts steps).map (Prod.map id (List.map Step.outline)) := by
  cases ts with
  | nil => rfl
  | cons t ts =>
      have ht := eval_outline t steps
      simp only [outline, outlineAll, mapAll, evalAll] at ht ⊢
      rw [ht]
      cases t.eval n steps with
      | error e => rfl
      | ok r =>
          have hts := evalAll_outline ts r.2
          simp only [outlineAll] at hts
          simp only [Except.map, ok_bind, Prod.map_fst, Prod.map_snd, id_eq, hts]
          cases evalAll n ts r.2 <;> rfl
termination_by structural ts

end

/-- Trees with one outline have one value, by steps with one outline. -/
theorem exists_eval_of_outline {t t' : Tree} (h : t'.outline = t.outline) {x : Number}
    {steps : List Step} (ht : t.eval n [] = .ok (x, steps)) :
    ∃ steps', t'.eval n [] = .ok (x, steps') ∧
      steps'.map Step.outline = steps.map Step.outline := by
  have he := eval_outline (n := n) t []
  have he' := eval_outline (n := n) t' []
  rw [h, he, ht] at he'
  cases ht' : t'.eval n [] with
  | error e =>
      rw [ht'] at he'
      cases he'
  | ok r =>
      obtain ⟨y, steps'⟩ := r
      rw [ht'] at he'
      obtain ⟨hx, hs⟩ := Prod.mk.inj (Except.ok.inj he')
      cases hx
      exact ⟨steps', rfl, hs.symm⟩

end Tree

/-! ## Reading tokens with one outline -/

section

variable {c : Catalog}

theorem Token.outline_eq_iff {t t' : Token} :
    t'.outline = t.outline ↔ t'.kind = t.kind ∧ t'.text = t.text := by
  constructor
  · intro h
    have hk := congrArg Token.kind h
    have ht := congrArg Token.text h
    exact ⟨hk, ht⟩
  · rintro ⟨hk, ht⟩
    rw [outline, outline, hk, ht]

/-- Where a token comes first, one with its kind and its text does in tokens
with one outline. -/
theorem exists_cons_of_outline {token : Token} {ts ts' : List Token}
    (h : ts'.map Token.outline = (token :: ts).map Token.outline) :
    ∃ token' ts'', ts' = token' :: ts'' ∧ token'.outline = token.outline ∧
      token'.kind = token.kind ∧ token'.text = token.text ∧
      ts''.map Token.outline = ts.map Token.outline := by
  obtain ⟨token', ts'', rfl, ht, hts⟩ := List.map_eq_cons_iff.mp h
  exact ⟨token', ts'', rfl, ht, (Token.outline_eq_iff.mp ht).1, (Token.outline_eq_iff.mp ht).2, hts⟩

theorem Catalog.infix?_of_outline {ts ts' : List Token}
    (h : ts'.map Token.outline = ts.map Token.outline) : c.infix? ts' = c.infix? ts := by
  cases ts with
  | nil => rw [List.map_eq_nil_iff.mp h]
  | cons token ts =>
      obtain ⟨token', ts'', rfl, -, hk, ht, -⟩ := exists_cons_of_outline h
      rw [infix?, infix?, hk, ht]

/-- `p.Relocates c ts' rest`: what `p` is can be read from `ts'`, up to places, and
what is left is `rest`, up to places. -/
def Phrase.Relocates (c : Catalog) (ts' rest : List Token) (p : Phrase) : Prop :=
  ∃ rest', rest'.map Token.outline = rest.map Token.outline ∧
    match p with
    | .expression top t =>
        ∃ t', t'.outline = t.outline ∧ Reads c (.expression top t') ts' rest'
    | .chain top left t => ∀ left', left'.outline = left.outline →
        ∃ t', t'.outline = t.outline ∧ Reads c (.chain top left' t') ts' rest'
    | .operand t => ∃ t', t'.outline = t.outline ∧ Reads c (.operand t') ts' rest'
    | .arguments b args => ∃ args', Tree.outlineAll args' = Tree.outlineAll args ∧
        Reads c (.arguments b args') ts' rest'

/-- Tokens with one outline are read as trees with one outline. -/
theorem Reads.relocated {p : Phrase} {ts rest : List Token} (h : Reads c p ts rest)
    {ts' : List Token} (hts : ts'.map Token.outline = ts.map Token.outline) :
    p.Relocates c ts' rest := by
  induction h generalizing ts' with
  | expression _ _ ih₁ ih₂ =>
      obtain ⟨mid', hmid, left', hleft, h₁⟩ := ih₁ hts
      obtain ⟨rest', hrest, hchain⟩ := ih₂ hmid
      obtain ⟨t', ht, h₂⟩ := hchain left' hleft
      exact ⟨rest', hrest, t', ht, .expression h₁ h₂⟩
  | stop hs =>
      refine ⟨ts', hts, fun left' hleft => ⟨left', hleft, .stop fun b hb => hs b ?_⟩⟩
      rwa [← Catalog.infix?_of_outline hts]
  | extend hb hr _ _ ih₁ ih₂ =>
      obtain ⟨token', ts'', rfl, htoken, -, -, htail⟩ := exists_cons_of_outline hts
      obtain ⟨mid', hmid, right', hright, h₁⟩ := ih₁ htail
      obtain ⟨rest', hrest, hchain⟩ := ih₂ hmid
      refine ⟨rest', hrest, fun left' hleft => ?_⟩
      obtain ⟨t', ht, h₂⟩ := hchain (.binary _ token' left' right') (by
        simp only [Tree.outline, Tree.map] at hleft hright ⊢
        rw [htoken, hleft, hright])
      exact ⟨t', ht, .extend ((Catalog.infix?_of_outline hts).trans hb) hr h₁ h₂⟩
  | literal hk =>
      obtain ⟨token', ts'', rfl, htoken, hkind, -, htail⟩ := exists_cons_of_outline hts
      refine ⟨ts'', htail, .literal token', ?_, .literal (hkind.trans hk)⟩
      rw [Tree.outline, Tree.outline, Tree.map, Tree.map, htoken]
  | constant hk hc =>
      obtain ⟨token', ts'', rfl, htoken, hkind, htext, htail⟩ := exists_cons_of_outline hts
      refine ⟨ts'', htail, .constant _ token', ?_, .constant (hkind.trans hk) (htext ▸ hc)⟩
      rw [Tree.outline, Tree.outline, Tree.map, Tree.map, htoken]
  | unary hk hu _ ih =>
      obtain ⟨token', ts'', rfl, htoken, hkind, htext, htail⟩ := exists_cons_of_outline hts
      obtain ⟨rest', hrest, t', ht, h₁⟩ := ih htail
      refine ⟨rest', hrest, .unary _ token' t', ?_, .unary (hkind.trans hk) (htext ▸ hu) h₁⟩
      simp only [Tree.outline, Tree.map] at ht ⊢
      rw [htoken, ht]
  | group hk hb _ hkc hbc ih =>
      obtain ⟨token', ts'', rfl, -, hkind, htext, htail⟩ := exists_cons_of_outline hts
      obtain ⟨behind, hbehind, t', ht, h₁⟩ := ih htail
      obtain ⟨close', rest', rfl, -, hkindc, htextc, hrest⟩ := exists_cons_of_outline hbehind
      exact ⟨rest', hrest, t', ht, .group (hkind.trans hk) (htext ▸ hb) h₁ (hkindc.trans hkc)
        (hbc.trans htextc.symm)⟩
  | call hk hf hkn hb _ ha ih =>
      obtain ⟨token', ts₁, rfl, htoken, hkind, htext, htail⟩ := exists_cons_of_outline hts
      obtain ⟨next', ts₂, rfl, -, hkindn, htextn, htail⟩ := exists_cons_of_outline htail
      obtain ⟨rest', hrest, args', hargs, h₁⟩ := ih htail
      refine ⟨rest', hrest, .call _ token' args', ?_, .call (hkind.trans hk) (htext ▸ hf)
        (hkindn.trans hkn) (htextn ▸ hb) h₁ (Tree.length_of_outlineAll hargs ▸ ha)⟩
      simp only [Tree.outline, Tree.outlineAll, Tree.map] at hargs ⊢
      rw [htoken, hargs]
  | emptyCall hk hf hkn hb hkc hbc ha =>
      obtain ⟨token', ts₁, rfl, htoken, hkind, htext, htail⟩ := exists_cons_of_outline hts
      obtain ⟨next', ts₂, rfl, -, hkindn, htextn, htail⟩ := exists_cons_of_outline htail
      obtain ⟨close', rest', rfl, -, hkindc, htextc, hrest⟩ := exists_cons_of_outline htail
      refine ⟨rest', hrest, .call _ token' [], ?_, .emptyCall (hkind.trans hk) (htext ▸ hf)
        (hkindn.trans hkn) (htextn ▸ hb) (hkindc.trans hkc) (hbc.trans htextc.symm) ha⟩
      rw [Tree.outline, Tree.outline, Tree.map, Tree.map, htoken]
  | last _ hk hb ih =>
      obtain ⟨behind, hbehind, t', ht, h₁⟩ := ih hts
      obtain ⟨close', rest', rfl, -, hkind, htext, hrest⟩ := exists_cons_of_outline hbehind
      refine ⟨rest', hrest, [t'], ?_, .last h₁ (hkind.trans hk) (hb.trans htext.symm)⟩
      simp only [Tree.outline, Tree.outlineAll, Tree.mapAll] at ht ⊢
      rw [ht]
  | more _ hk _ ih₁ ih₂ =>
      obtain ⟨behind, hbehind, t', ht, h₁⟩ := ih₁ hts
      obtain ⟨separator', mid', rfl, -, hkind, -, hmid⟩ := exists_cons_of_outline hbehind
      obtain ⟨rest', hrest, args', hargs, h₂⟩ := ih₂ hmid
      refine ⟨rest', hrest, t' :: args', ?_, .more h₁ (hkind.trans hk) h₂⟩
      simp only [Tree.outline, Tree.outlineAll, Tree.mapAll] at ht hargs ⊢
      rw [ht, hargs]

theorem Catalog.Accepts.relocated {tokens tokens' : List Token} {t : Tree}
    (h : c.Accepts tokens t) (hts : tokens'.map Token.outline = tokens.map Token.outline) :
    ∃ t', t'.outline = t.outline ∧ c.Accepts tokens' t' := by
  obtain ⟨rest', hrest, t', ht, h'⟩ := Reads.relocated h hts
  cases List.map_eq_nil_iff.mp hrest
  exact ⟨t', ht, h'⟩

end

/-! ## Evaluations of trees with one outline -/

theorem Applied.kind_outline (a : Applied) : a.outline.kind = a.kind := by
  cases a <;> rfl

theorem Applied.id_outline (a : Applied) : a.outline.id = a.id := by
  cases a <;> rfl

theorem Step.agrees_of_outline {s s' : Step} (h : s'.outline = s.outline) : s.Agrees s' := by
  have happlied := congrArg Step.applied h
  have hoperands := congrArg Step.operands h
  have hresult := congrArg Step.result h
  refine ⟨?_, ?_, hoperands, hresult⟩
  · rw [← Applied.kind_outline, ← Applied.kind_outline s.applied]
    exact congrArg Applied.kind happlied
  · rw [← Applied.id_outline, ← Applied.id_outline s.applied]
    exact congrArg Applied.id happlied

/-- Evaluations that give the same value, if one of them gives one, by steps that
say the same. -/
structure Evaluation.Agrees (e e' : Evaluation) : Prop where
  value : ∀ x, e.result = .ok x ↔ e'.result = .ok x
  steps : ∀ x, e.result = .ok x → List.Forall₂ Step.Agrees e.steps e'.steps

section

variable {c c' : Catalog} {n : Numerics} {t t' : Tree}

theorem Catalog.Accepts.exists_ofTokens {tokens tokens' : List Token} (h : c.Accepts tokens t)
    (h' : c'.Accepts tokens' t') (ht : t'.outline = t.outline) {width : Nat} (width' : Nat)
    {x : Number} (hx : (Evaluation.ofTokens c n width tokens).result = .ok x) :
    (Evaluation.ofTokens c' n width' tokens').result = .ok x ∧
      List.Forall₂ Step.Agrees (Evaluation.ofTokens c n width tokens).steps
        (Evaluation.ofTokens c' n width' tokens').steps := by
  generalize he : Evaluation.ofTokens c n width tokens = e at hx ⊢
  obtain ⟨steps, result⟩ := e
  cases hx
  obtain ⟨u, hu, hx⟩ := Evaluation.ofTokens_eq_ok_iff.mp he
  cases h.unique hu
  obtain ⟨s, hs, hsteps⟩ := Tree.exists_eval_of_outline ht hx
  have he' : Evaluation.ofTokens c' n width' tokens' = ⟨s.reverse, .ok x⟩ :=
    Evaluation.ofTokens_eq_ok_iff.mpr ⟨t', h', by rwa [List.reverse_reverse]⟩
  have heq : List.Forall₂ (· = ·) (steps.reverse.map Step.outline) (s.map Step.outline) :=
    List.forall₂_eq_eq_eq ▸ hsteps.symm
  have hagree := (List.forall₂_map_right_iff.mp (List.forall₂_map_left_iff.mp heq)).imp
    fun _ _ h => Step.agrees_of_outline h.symm
  have hrev := List.rel_reverse hagree
  rw [List.reverse_reverse] at hrev
  rw [he']
  exact ⟨rfl, hrev⟩

/-- Sources that are read as trees with one outline come to the same, whatever
the catalogs. -/
theorem Catalog.Accepts.ofSource_agrees {source source' : String}
    (hs : (c.lex source).stray = none) (hs' : (c'.lex source').stray = none)
    (h : c.Accepts (c.lex source).tokens t) (h' : c'.Accepts (c'.lex source').tokens t')
    (ht : t'.outline = t.outline) :
    (Evaluation.ofSource c n source).Agrees (Evaluation.ofSource c' n source') := by
  rw [Evaluation.ofSource_of_stray hs, Evaluation.ofSource_of_stray hs']
  exact {
    value := fun x => ⟨fun hx => (h.exists_ofTokens h' ht _ hx).1,
      fun hx => (h'.exists_ofTokens h ht.symm _ hx).1⟩
    steps := fun x hx => (h.exists_ofTokens h' ht _ hx).2 }

end

end Reckoner
