/-
# A selection from a catalog is conservative

Leaving operators, functions and constants out of a catalog changes nothing for
what is left:

    tokens that have a value in the smaller catalog        come to the same in the larger one
    an expression of the larger one, all of it kept        comes to the same in the smaller one

and so do sources.  Only the lexing needs care.  A symbol that is left out is no
lexeme any more, and where it was the longest one a shorter one is found: with
`<` and without `<=`, the source `1<=2` has other tokens.  A source whose tokens
are all kept is lexed alike in any case.  For the way back it takes that no
symbol begins with another one, as in the built-in catalogs, whose symbols have
one character each.
-/
import Reckoner.Proofs.Catalog.Selection
import Reckoner.Proofs.Evaluation.Concurrence
import Reckoner.Proofs.Grammar.Styles

namespace Reckoner

/-- Whether what is applied is kept by a selection. -/
def Selection.keeps (sel : Selection) : Applied → Bool
  | .operator op => Definition.keeps sel.operators op.id.name
  | .function f => Definition.keeps sel.functions f.id.name
  | .constant k => Definition.keeps sel.constants k.id.name

/-- Whether all that tokens stand for is kept by a selection; `behind` tells
whether an operand has ended in front of them. -/
def Definition.keptBy (d : Definition) (sel : Selection) : Bool → List Token → Bool
  | _, [] => true
  | behind, t :: ts => (d.meaning? behind t).all sel.keeps && d.keptBy sel t.closesOperand ts

/-- Whether something is among what a definition declares. -/
def Definition.Holds (d : Definition) : Applied → Prop
  | .operator op => op ∈ d.operators
  | .function f => f ∈ d.functions
  | .constant k => k ∈ d.constants

section

variable {c c' : Catalog} {sel : Selection} {behind : Bool} {t : Token} {ts : List Token}
  {a : Applied}

/-! ## What tokens stand for -/

theorem Definition.holds_of_meaning? {d : Definition} (h : d.meaning? behind t = some a) :
    d.Holds a := by
  unfold meaning? at h
  split at h
  · obtain ⟨op, hop, rfl⟩ := Option.map_eq_some_iff.mp h
    exact List.mem_of_find?_eq_some hop
  · split at h
    · next f hf =>
        cases h
        exact List.mem_of_find?_eq_some hf
    · obtain ⟨k, hk, rfl⟩ := Option.map_eq_some_iff.mp h
      exact List.mem_of_find?_eq_some hk
  · cases h

/-- A token stands for the same in every catalog that holds what it stands for. -/
theorem Catalog.meaning?_of_holds (h : c.meaning? behind t = some a) (h' : c'.Holds a) :
    c'.meaning? behind t = some a := by
  unfold Definition.meaning? at h
  split at h
  · next hk =>
      obtain ⟨op, hop, rfl⟩ := Option.map_eq_some_iff.mp h
      have hfind := findOperator?_of_mem h'
      have hop := List.find?_some hop
      rw [Bool.and_eq_true, decide_eq_true_eq, decide_eq_true_eq] at hop
      rw [hop.1, hop.2] at hfind
      simp only [Definition.meaning?, hk, hfind, Option.map_some]
  · next hk =>
      split at h
      · next f hf =>
          cases h
          have hname := List.find?_some hf
          rw [decide_eq_true_eq] at hname
          exact Definition.meaning?_function behind hk (hname ▸ findFunction?_of_mem h')
      · obtain ⟨k, hfind, rfl⟩ := Option.map_eq_some_iff.mp h
        have hname := List.find?_some hfind
        rw [decide_eq_true_eq] at hname
        have hfind' : c'.findConstant? t.text = some k := hname ▸ findConstant?_of_mem h'
        exact Definition.meaning?_constant behind hk (c'.findFunction?_eq_none hfind') hfind'
  · cases h

/-! ## Expressions are declared -/

/-- Whether an operand has ended in front of a phrase. -/
def Phrase.isBehind : Phrase → Bool
  | .chain .. => true
  | .expression .. | .operand .. | .arguments .. => false

/-- A token of a kind that nothing declares adds nothing to be declared. -/
theorem Definition.declares_cons {d : Definition} {b : Bool} {ts : List Token}
    (hk : t.kind.isDeclared = false) (hb : t.closesOperand = b) (h : d.Declares b ts) :
    d.Declares behind (t :: ts) := by
  refine ⟨fun hd => ?_, ?_⟩
  · rw [hk] at hd
    cases hd
  · rwa [hb]

/-- All that stands among the tokens of a phrase is declared. -/
theorem Reads.declares {p : Phrase} {ts rest : List Token} (h : Reads c p ts rest)
    (hrest : c.Declares true rest) : c.Declares p.isBehind ts := by
  induction h with
  | expression _ _ ih₁ ih₂ => exact ih₁ (ih₂ hrest)
  | stop _ => exact hrest
  | extend hb _ _ _ ih₁ ih₂ =>
      obtain ⟨hk, ho⟩ := Catalog.infix?_eq_some.mp hb
      refine ⟨fun _ => ⟨_, Definition.meaning?_binary hk ho⟩, ?_⟩
      rw [Token.closesOperand, hk]
      exact ih₁ (ih₂ hrest)
  | literal hk =>
      exact Definition.declares_cons (by rw [hk]; rfl) (by rw [Token.closesOperand, hk]) hrest
  | constant hk hc =>
      refine ⟨fun _ => ⟨_, Definition.meaning?_constant _ hk (c.findFunction?_eq_none hc) hc⟩, ?_⟩
      rwa [Token.closesOperand, hk]
  | unary hk hu _ ih =>
      refine ⟨fun _ => ⟨_, Definition.meaning?_unary hk hu⟩, ?_⟩
      rw [Token.closesOperand, hk]
      exact ih hrest
  | group hk _ _ hkc _ ih =>
      refine Definition.declares_cons (by rw [hk]; rfl) (b := false) ?_ (ih ?_)
      · rw [Token.closesOperand, hk]
      · exact Definition.declares_cons (by rw [hkc]; rfl) (by rw [Token.closesOperand, hkc]) hrest
  | call hk hf hkn _ _ _ ih =>
      refine ⟨fun _ => ⟨_, Definition.meaning?_function _ hk hf⟩, ?_⟩
      refine Definition.declares_cons (by rw [hkn]; rfl) ?_ (ih hrest)
      rw [Token.closesOperand, hkn]
      rfl
  | emptyCall hk hf hkn _ hkc _ _ =>
      refine ⟨fun _ => ⟨_, Definition.meaning?_function _ hk hf⟩, ?_⟩
      refine Definition.declares_cons (by rw [hkn]; rfl) (by rw [Token.closesOperand, hkn]) ?_
      exact Definition.declares_cons (by rw [hkc]; rfl) (by rw [Token.closesOperand, hkc]) hrest
  | last _ hk _ ih =>
      refine ih (Definition.declares_cons (by rw [hk]; rfl) ?_ hrest)
      rw [Token.closesOperand, hk]
  | more _ hk _ ih₁ ih₂ =>
      refine ih₁ (Definition.declares_cons (by rw [hk]; rfl) ?_ (ih₂ hrest))
      rw [Token.closesOperand, hk]
      rfl

/-! ## What a selection holds -/

section

variable (hd : c'.toDefinition = c.toDefinition.restrict sel)

include hd

theorem Catalog.holds_restrict : c'.Holds a ↔ c.Holds a ∧ sel.keeps a = true := by
  rw [hd]
  cases a with
  | operator op => exact List.mem_filter
  | function f => exact List.mem_filter
  | constant k => exact List.mem_filter

theorem Catalog.concurs_of_declares (h : c'.Declares behind ts) :
    c'.Concurs c.toDefinition behind ts := by
  induction ts generalizing behind with
  | nil => trivial
  | cons t ts ih =>
      refine ⟨fun hk => ?_, ih h.2⟩
      obtain ⟨a, ha⟩ := h.1 hk
      exact ⟨a, ha,
        meaning?_of_holds ha ((holds_restrict hd).mp (Definition.holds_of_meaning? ha)).1⟩

theorem Catalog.concurs_of_keptBy (h : c.Declares behind ts)
    (hkept : c.keptBy sel behind ts = true) :
    c.Concurs c'.toDefinition behind ts := by
  induction ts generalizing behind with
  | nil => trivial
  | cons t ts ih =>
      obtain ⟨hhead, htail⟩ := Bool.and_eq_true_iff.mp hkept
      refine ⟨fun hk => ?_, ih h.2 htail⟩
      obtain ⟨a, ha⟩ := h.1 hk
      rw [ha, Option.all_some] at hhead
      exact ⟨a, ha,
        meaning?_of_holds ha ((holds_restrict hd).mpr ⟨Definition.holds_of_meaning? ha, hhead⟩)⟩

theorem Lexeme.of_restrict {kind : Token.Kind} {cs : List Char}
    (h : Lexeme c'.toDefinition kind cs) :
    Lexeme c.toDefinition kind cs := by
  cases h with
  | numeral h => exact .numeral h
  | name hne hall => exact .name hne hall
  | symbol h => exact .symbol (Definition.uses_restrict_subset sel (hd ▸ h))

end

/-! ## Sources -/

namespace Token

/-- Lexing finds the same in a catalog in which the tokens are the longest lexemes too. -/
theorem lexFrom_of_munched (offset : Nat) (cs : List Char)
    (hstray : (lexFrom c.symbols offset cs).stray = none)
    (h : ∀ t ∈ (lexFrom c.symbols offset cs).tokens, ∀ rest,
      Munch c.toDefinition t.kind t.text.toList rest →
        Munch c'.toDefinition t.kind t.text.toList rest) :
    lexFrom c'.symbols offset cs = lexFrom c.symbols offset cs := by
  induction cs using lex_induction c generalizing offset with
  | nil => rw [lexFrom, lexFrom]
  | spacing ch rest hspacing ih =>
      rw [lexFrom_spacing hspacing] at hstray h
      rw [lexFrom_spacing hspacing, lexFrom_spacing hspacing]
      exact ih _ hstray h
  | stray ch rest hspacing hhead =>
      rw [lexFrom_stray hspacing hhead] at hstray
      cases hstray
  | token kind text rest hm ih =>
      rw [lexFrom_munch _ hm] at hstray h
      obtain ⟨hhead, htail⟩ := List.forall_mem_cons.mp h
      have hm' := hhead rest
      rw [String.toList_ofList] at hm'
      rw [lexFrom_munch _ hm, lexFrom_munch _ (hm' hm), ih _ hstray htail]

end Token

theorem Definition.Concurs.exists_meaning {d d' : Definition} (h : d.Concurs d' behind ts) :
    ∀ t ∈ ts, t.kind.isDeclared = true → ∃ behind a, d'.meaning? behind t = some a := by
  induction ts generalizing behind with
  | nil => exact List.forall_mem_nil _
  | cons t ts ih =>
      refine List.forall_mem_cons.mpr ⟨fun hk => ?_, ih h.2⟩
      obtain ⟨a, -, ha⟩ := h.1 hk
      exact ⟨behind, a, ha⟩

section

variable (hd : c'.toDefinition = c.toDefinition.restrict sel)

include hd

/-- A source whose tokens stand for the same is lexed alike. -/
theorem Catalog.lex_of_concurs {source : String} (hstray : (c.lex source).stray = none)
    (h : c.Concurs c'.toDefinition false (c.lex source).tokens) : c'.lex source = c.lex source := by
  refine Token.lexFrom_of_munched 0 source.toList hstray fun t ht rest hm => ⟨?_, ?_⟩
  · -- the token of an operator that is kept is a symbol of it
    obtain ⟨kind, text, start, stop⟩ := t
    have hmeaning := h.exists_meaning _ ht
    have hlexeme := hm.lexeme
    dsimp only at hmeaning hlexeme ⊢
    generalize hcs : text.toList = cs at hlexeme
    cases hlexeme with
    | numeral hs => exact .numeral hs
    | name hne hall => exact .name hne hall
    | @symbol symbol role hmem =>
        cases String.toList_injective hcs
        refine .symbol ?_
        rw [hd]
        rcases List.mem_append.mp hmem with hop | hrest
        · obtain ⟨_, -, he⟩ := List.mem_map.mp hop
          cases he
          obtain ⟨_, a, ha⟩ := hmeaning rfl
          have hholds := Definition.holds_of_meaning? ha
          obtain ⟨op, hop, rfl⟩ := Option.map_eq_some_iff.mp ha
          have hsymbol := List.find?_some hop
          rw [Bool.and_eq_true, decide_eq_true_eq] at hsymbol
          rw [hd] at hholds
          exact List.mem_append_left _ (List.mem_map.mpr ⟨op, hholds, by rw [hsymbol.1]⟩)
        · exact List.mem_append_right _ hrest
  · exact fun kind' text' h' hp => hm.longest kind' text' (h'.of_restrict hd) hp

/-- Where every symbol has one character, a longest lexeme of the smaller catalog is one
of the larger. -/
theorem Munch.of_restrict (hone : ∀ s ∈ c.uses, s.text.toList.length = 1) {kind : Token.Kind}
    {text rest : List Char} (h : Munch c'.toDefinition kind text rest) :
    Munch c.toDefinition kind text rest where
  lexeme := h.lexeme.of_restrict hd
  longest kind' text' h' hp := by
    cases h' with
    | numeral hs => exact h.longest _ _ (.numeral hs) hp
    | name hne hall => exact h.longest _ _ (.name hne hall) hp
    | symbol hmem =>
        rw [hone _ hmem]
        exact List.length_pos_iff.mpr h.lexeme.ne_nil

end

end

/-- Every selection from a catalog is a catalog, and it is conservative.  Tokens that
have a value there come to the same in the catalog itself, by the same steps; an
expression of the catalog, with or without a value, comes to the same there if all
operators (each in the role it is used in), functions and constants in it are kept.
The second holds for sources as well, and for the built-in catalogs both do. -/
theorem restriction_conservative (c : Catalog) (sel : Selection) :
    ∃ c', c.restrict sel = .ok c' ∧
      (∀ n width tokens x, (Evaluation.ofTokens c' n width tokens).result = .ok x →
        Evaluation.ofTokens c n width tokens = Evaluation.ofTokens c' n width tokens) ∧
      (∀ tokens, (∃ t, c.Accepts tokens t) → c.keptBy sel false tokens = true →
        ∀ n width, Evaluation.ofTokens c' n width tokens = Evaluation.ofTokens c n width tokens) ∧
      (∀ source, c.AcceptsSource source → c.keptBy sel false (c.lex source).tokens = true →
        ∀ n, Evaluation.ofSource c' n source = Evaluation.ofSource c n source) ∧
      ∀ style, c = Preset.catalog style →
        ∀ n source x, (Evaluation.ofSource c' n source).result = .ok x →
          Evaluation.ofSource c n source = Evaluation.ofSource c' n source := by
  obtain ⟨c', hc⟩ := c.exists_restrict sel
  have hd : c'.toDefinition = c.toDefinition.restrict sel := Catalog.toDefinition_of_ofDefinition hc
  have hf : c'.functionBrackets = c.functionBrackets := by rw [hd]; rfl
  have he : c'.expressionBrackets = c.expressionBrackets := by rw [hd]; rfl
  have hup : ∀ n width tokens x, (Evaluation.ofTokens c' n width tokens).result = .ok x →
      Evaluation.ofTokens c n width tokens = Evaluation.ofTokens c' n width tokens := by
    intro n width tokens x h
    obtain ⟨_, hl⟩ := Leads.exists_of_ok h
    have hconcurs := Catalog.concurs_of_declares hd (hl.declares trivial)
    exact Evaluation.ofTokens_of_concurs hconcurs hf.symm he.symm
  have hdown : ∀ tokens, (∃ t, c.Accepts tokens t) → c.keptBy sel false tokens = true →
      c.Concurs c'.toDefinition false tokens := by
    rintro tokens ⟨t, ht⟩ hkept
    exact Catalog.concurs_of_keptBy hd (Reads.declares ht trivial) hkept
  refine ⟨c', hc, hup, fun tokens ht hkept n width => ?_, fun source hs hkept n => ?_, ?_⟩
  · exact Evaluation.ofTokens_of_concurs (hdown tokens ht hkept) hf he
  · obtain ⟨hstray, ht⟩ := hs
    have hconcurs := hdown _ ht hkept
    have hlex := Catalog.lex_of_concurs hd hstray hconcurs
    rw [Evaluation.ofSource_of_stray hstray, Evaluation.ofSource_of_stray (by rw [hlex, hstray]),
      hlex]
    exact Evaluation.ofTokens_of_concurs hconcurs hf he
  · rintro style rfl n source x h
    have hstray := Evaluation.stray_of_ok h
    have hlex : (Preset.catalog style).lex source = c'.lex source :=
      Token.lexFrom_of_munched 0 source.toList hstray fun _ _ _ hm =>
        hm.of_restrict hd fun _ => Preset.length_of_mem_uses
    rw [Evaluation.ofSource_eq_ofTokens h] at h
    rw [Evaluation.ofSource_of_stray hstray, Evaluation.ofSource_of_stray (by rw [hlex, hstray]),
      hlex]
    exact hup n _ _ x h

/-- Sums and absolute values, and nothing else. -/
def Selection.sums : Selection where
  operators := some ["add", "subtract", "negate"]
  functions := some ["abs"]
  constants := some []

theorem sumOfAbs_restricted :
    let c := Preset.catalog .standard
    let n : Numerics := ⟨20, fun _ => Decimal.zero⟩
    ∃ c', c.restrict .sums = .ok c' ∧
      Evaluation.ofTokens c n 16 (c.lex "1 - -2 + abs(-3)").tokens =
        Evaluation.ofTokens c' n 16 (c.lex "1 - -2 + abs(-3)").tokens ∧
      (Evaluation.ofSource c' n "1 - -2 + abs(-3)").result = .ok (.finite ⟨false, 6, 0⟩) ∧
      Evaluation.ofSource c n "1 - -2 + abs(-3)" = Evaluation.ofSource c' n "1 - -2 + abs(-3)" := by
  intro c n
  obtain ⟨c', hc, hup, hdown, hsource, hpreset⟩ := restriction_conservative c .sums
  have hv := toOption_eq_some.mp (show (Evaluation.ofSource c n "1 - -2 + abs(-3)").result.toOption =
    some (.finite ⟨false, 6, 0⟩) by decide +kernel)
  have hkept : c.keptBy .sums false (c.lex "1 - -2 + abs(-3)").tokens = true := by decide +kernel
  have haccepts := Catalog.acceptsSource_of_ok hv
  have htokens := toOption_eq_some.mp (show (Evaluation.ofTokens c n 16
    (c.lex "1 - -2 + abs(-3)").tokens).result.toOption = some (.finite ⟨false, 6, 0⟩) by
      decide +kernel)
  rw [← hdown _ haccepts.2 hkept] at htokens
  rw [← hsource _ haccepts hkept] at hv
  exact ⟨c', hc, hup _ _ _ _ htokens, hv, hpreset .standard rfl _ _ _ hv⟩

end Reckoner
