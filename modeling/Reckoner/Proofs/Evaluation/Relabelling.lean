/-
# Relabelling keeps the meaning

A catalog with new labels differs from the old one in the texts of operators,
functions and constants.  A source that has a value can be put into the new
words: every token is written as the new catalog writes what it stands for
where it stands, so that one minus sign may become two different symbols, and
the texts are joined by single spaces.  What comes out has the same value by
the same steps:

    the texts are lexemes of the new catalog, and
    spaces keep them apart                              (`lexFrom_intercalate`)
    the new catalog is consistent, so each of them
    leads back to what it was made from                 (`meaning?_relabel`)
    tokens that say the same come to the same           (`Renders.ofTokens`)
-/
import Reckoner.Catalog.Derivation
import Reckoner.Proofs.Catalog.Derived
import Reckoner.Proofs.Catalog.Lookup
import Reckoner.Proofs.Evaluation.Translation
import Reckoner.Proofs.Token.Spacing

namespace Reckoner

/-- What labels make of operators, functions and constants. -/
def Labels.translation (labels : Labels) : Translation where
  operator op := { op with symbol := (labels.operators.lookup op.id.name).getD op.symbol }
  function f := { f with name := (labels.functions.lookup f.id.name).getD f.name }
  constant k := { k with name := (labels.constants.lookup k.id.name).getD k.name }
  operator_eq _ := rfl
  function_eq _ := rfl
  constant_eq _ := rfl

/-! ## Sources in new words -/

/-- The new text of a token; `behind` tells whether an operand has ended in
front of it. -/
def Definition.reword (d : Definition) (labels : Labels) (behind : Bool) (t : Token) : String :=
  match d.meaning? behind t with
  | some a => (labels.translation.apply a).surface
  | none => t.text

/-- The new texts of tokens, with their kinds. -/
def Definition.rewordAll (d : Definition) (labels : Labels) : Bool → List Token → List Piece
  | _, [] => []
  | behind, t :: ts => (t.kind, d.reword labels behind t) :: d.rewordAll labels t.closesOperand ts

/-- A source in new words, with single spaces between the texts. -/
def Catalog.reworded (c : Catalog) (labels : Labels) (source : String) : String :=
  " ".intercalate ((c.rewordAll labels false (c.lex source).tokens).map (·.2))

/-- Steps that apply something of one identity to the same operands, with one result. -/
structure Step.Agrees (s s' : Step) : Prop where
  kind : s'.applied.kind = s.applied.kind
  id : s'.applied.id = s.applied.id
  operands : s'.operands = s.operands
  result : s'.result = s.result

/-! ## What the new catalog holds -/

section

variable {c c' : Catalog} {labels : Labels}

/-- A translation keeps the kind and the identity of what is applied. -/
theorem Translation.Repeats.agrees {tr : Translation} {s s' : Step} (h : tr.Repeats s s') :
    s.Agrees s' where
  kind := by
    rw [h.applied]
    cases s.applied <;> rfl
  id := by
    rw [h.applied]
    cases s.applied with
    | operator op => exact congrArg (·.id.name) (tr.operator_eq op)
    | function f => exact congrArg (·.id.name) (tr.function_eq f)
    | constant k => exact congrArg (·.id.name) (tr.constant_eq k)
  operands := h.operands
  result := h.result

/-- What is written with a new text is what the text leads to. -/
theorem Catalog.meaning?_relabel (hc : c.relabel labels = .ok c') {behind : Bool} {t t' : Token}
    {a : Applied} (h : c.meaning? behind t = some a) (hkind : t'.kind = t.kind)
    (htext : t'.text = (labels.translation.apply a).surface) :
    c'.meaning? behind t' = some (labels.translation.apply a) := by
  have hd : c'.toDefinition = c.toDefinition.relabel labels := toDefinition_of_ofDefinition hc
  unfold Definition.meaning? at h
  split at h
  · next hk =>
      obtain ⟨op, hop, rfl⟩ := Option.map_eq_some_iff.mp h
      have hmem : labels.translation.operator op ∈ c'.operators :=
        hd ▸ List.mem_map_of_mem (List.mem_of_find?_eq_some hop)
      have hfind := findOperator?_of_mem hmem
      have harity : op.arity = if behind then .binary else .unary := c.arity_of_findOperator? hop
      rw [labels.translation.arity_operator, harity] at hfind
      rw [Definition.meaning?, hkind, hk]
      simp only [htext, Applied.surface, Translation.apply, hfind, Option.map_some]
  · next hk =>
      split at h
      · next f hf =>
          cases h
          have hmem : labels.translation.function f ∈ c'.functions :=
            hd ▸ List.mem_map_of_mem (List.mem_of_find?_eq_some hf)
          have hfind := findFunction?_of_mem hmem
          exact Definition.meaning?_function behind (hkind.trans hk) (htext ▸ hfind)
      · obtain ⟨k, hk', rfl⟩ := Option.map_eq_some_iff.mp h
        have hmem : labels.translation.constant k ∈ c'.constants :=
          hd ▸ List.mem_map_of_mem (List.mem_of_find?_eq_some hk')
        have hfind := findConstant?_of_mem hmem
        exact Definition.meaning?_constant behind (hkind.trans hk)
          (htext ▸ c'.findFunction?_eq_none hfind) (htext ▸ hfind)
  · cases h

/-- What is written with a new text is a lexeme of the new catalog. -/
theorem Catalog.lexeme_surface (hc : c.relabel labels = .ok c') {behind : Bool} {t : Token}
    {a : Applied} (h : c.meaning? behind t = some a) :
    Lexeme c'.toDefinition t.kind (labels.translation.apply a).surface.toList := by
  have hd : c'.toDefinition = c.toDefinition.relabel labels := toDefinition_of_ofDefinition hc
  unfold Definition.meaning? at h
  split at h
  · next hk =>
      obtain ⟨op, hop, rfl⟩ := Option.map_eq_some_iff.mp h
      have hmem : labels.translation.operator op ∈ c'.operators :=
        hd ▸ List.mem_map_of_mem (List.mem_of_find?_eq_some hop)
      rw [hk]
      exact .symbol (Definition.operator_mem_uses hmem)
  · next hk =>
      rw [hk]
      split at h
      · next f hf =>
          cases h
          have hmem : labels.translation.function f ∈ c'.functions :=
            hd ▸ List.mem_map_of_mem (List.mem_of_find?_eq_some hf)
          exact .of_isName (isName_of_mem_functions hmem)
      · obtain ⟨k, hk', rfl⟩ := Option.map_eq_some_iff.mp h
        have hmem : labels.translation.constant k ∈ c'.constants :=
          hd ▸ List.mem_map_of_mem (List.mem_of_find?_eq_some hk')
        exact .of_isName (isName_of_mem_constants hmem)
  · cases h

/-- Texts that stand for nothing that labels change are lexemes as before. -/
theorem Lexeme.relabel (hc : c.relabel labels = .ok c') {kind : Token.Kind} {cs : List Char}
    (h : Lexeme c.toDefinition kind cs) (hkind : kind.isDeclared = false) :
    Lexeme c'.toDefinition kind cs := by
  have hd : c'.toDefinition = c.toDefinition.relabel labels :=
    Catalog.toDefinition_of_ofDefinition hc
  cases h with
  | numeral h => exact .numeral h
  | name _ _ => cases hkind
  | @symbol text role h =>
      refine .symbol (hd ▸ List.mem_append_right _ ?_)
      rcases List.mem_append.mp h with h | h
      · obtain ⟨op, -, he⟩ := List.mem_map.mp h
        cases he
        cases hkind
      · exact h

/-! ## Tokens in new words -/

theorem Catalog.lexeme_reword (hc : c.relabel labels = .ok c') {behind : Bool} {t : Token}
    (ht : Lexeme c.toDefinition t.kind t.text.toList)
    (hm : t.kind.isDeclared = true → ∃ a, c.meaning? behind t = some a) :
    Lexeme c'.toDefinition t.kind (c.reword labels behind t).toList := by
  unfold Definition.reword
  split
  · next a h => exact lexeme_surface hc h
  · next h =>
      refine ht.relabel hc (Bool.eq_false_iff.mpr fun hdeclared => ?_)
      obtain ⟨a, ha⟩ := hm hdeclared
      rw [h] at ha
      cases ha

theorem Catalog.lexeme_rewordAll (hc : c.relabel labels = .ok c') {behind : Bool}
    {ts : List Token} (ht : ∀ t ∈ ts, Lexeme c.toDefinition t.kind t.text.toList)
    (hd : c.Declares behind ts) :
    ∀ p ∈ c.rewordAll labels behind ts, Lexeme c'.toDefinition p.1 p.2.toList := by
  induction ts generalizing behind with
  | nil => exact List.forall_mem_nil _
  | cons t ts ih =>
      obtain ⟨hhead, htail⟩ := List.forall_mem_cons.mp ht
      exact List.forall_mem_cons.mpr ⟨lexeme_reword hc hhead hd.1, ih htail hd.2⟩

/-- Tokens of the new catalog that are written so say the same. -/
theorem Translation.renders_rewordAll (hc : c.relabel labels = .ok c') {behind : Bool}
    {ts ts' : List Token} (hd : c.Declares behind ts)
    (h : ts'.map (fun t => (t.kind, t.text)) = c.rewordAll labels behind ts) :
    labels.translation.Renders c c' behind ts ts' := by
  induction ts generalizing behind ts' with
  | nil =>
      cases List.map_eq_nil_iff.mp h
      exact .nil
  | cons t ts ih =>
      obtain ⟨t', ts'', rfl, hhead, htail⟩ := List.map_eq_cons_iff.mp h
      obtain ⟨hkind, htext⟩ := Prod.mk.inj hhead
      refine .cons hkind (fun a ha => ?_) (fun hdeclared => ?_) (ih hd.2 htail)
      · refine Catalog.meaning?_relabel hc ha hkind ?_
        rw [htext, Definition.reword, ha]
      · rw [htext, Definition.reword]
        split
        · next a ha =>
            unfold Definition.meaning? at ha
            split at ha
            · next hk =>
                rw [hk] at hdeclared
                cases hdeclared
            · next hk =>
                rw [hk] at hdeclared
                cases hdeclared
            · cases ha
        · rfl

/-- The new source is lexed into the new texts. -/
theorem Catalog.lex_reworded (hc : c.relabel labels = .ok c') {source : String}
    (hd : c.Declares false (c.lex source).tokens) :
    (c'.lex (c.reworded labels source)).stray = none ∧
      (c'.lex (c.reworded labels source)).tokens.map (fun t => (t.kind, t.text)) =
        c.rewordAll labels false (c.lex source).tokens :=
  c'.lex_intercalate _ (lexeme_rewordAll hc (fun _ => lexeme_of_mem_lex) hd)

end

/-- A source that has a value under a catalog has it under every relabelling of
the catalog, once it is put into the new words; the steps are the same. -/
theorem relabel_keeps_meaning (c c' : Catalog) (labels : Labels) (n : Numerics) (source : String)
    (x : Number) (hc : c.relabel labels = .ok c')
    (h : (Evaluation.ofSource c n source).result = .ok x) :
    (Evaluation.ofSource c' n (c.reworded labels source)).result = .ok x ∧
      List.Forall₂ Step.Agrees (Evaluation.ofSource c n source).steps
        (Evaluation.ofSource c' n (c.reworded labels source)).steps := by
  have hd' : c'.toDefinition = c.toDefinition.relabel labels :=
    Catalog.toDefinition_of_ofDefinition hc
  have htokens := Evaluation.ofSource_eq_ofTokens h
  rw [htokens] at h ⊢
  -- moves lead over all tokens, so all that stands among them is declared
  obtain ⟨_, hl⟩ := Leads.exists_of_ok h
  have hd : c.Declares false (c.lex source).tokens := hl.declares trivial
  obtain ⟨hstray, hwords⟩ := Catalog.lex_reworded hc hd
  rw [Evaluation.ofSource_of_stray hstray]
  obtain ⟨hresult, hsteps⟩ := (Translation.renders_rewordAll hc hd hwords).ofTokens _
    (by rw [hd']; rfl) (by rw [hd']; rfl) h
  exact ⟨hresult, hsteps.imp fun _ _ hr => hr.agrees⟩

/-- Labels that tell the two minus signs apart. -/
def tildeLabels : Labels where
  operators := [("negate", "~")]
  functions := [("max", "greatest")]

theorem tilde_keeps_meaning :
    ∃ c', (Preset.catalog .standard).relabel tildeLabels = .ok c' ∧
      (Preset.catalog .standard).reworded tildeLabels "1 - -max(2, 3)" =
        "1 - ~ greatest ( 2 , 3 )" ∧
      (Evaluation.ofSource c' ⟨20, fun _ => Decimal.zero⟩ "1 - ~ greatest ( 2 , 3 )").result =
        .ok (.finite ⟨false, 4, 0⟩) := by
  have hwords : (Preset.catalog .standard).reworded tildeLabels "1 - -max(2, 3)" =
      "1 - ~ greatest ( 2 , 3 )" := by decide +kernel
  have hv := toOption_eq_some.mp (show (Evaluation.ofSource (Preset.catalog .standard)
    ⟨20, fun _ => Decimal.zero⟩ "1 - -max(2, 3)").result.toOption =
      some (.finite ⟨false, 4, 0⟩) by decide +kernel)
  obtain ⟨c', hc⟩ := Catalog.exists_of_isOk (show ((Preset.catalog .standard).toDefinition.relabel
    tildeLabels).symbols?.isOk = true by decide +kernel)
  have h := relabel_keeps_meaning _ c' tildeLabels _ _ _ hc hv
  rw [hwords] at h
  exact ⟨c', hc, hwords, h.1⟩

end Reckoner
