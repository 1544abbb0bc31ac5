/-
# Everything declared can be written

The fixed texts of a definition may begin one another, and its names may share
letters, but a space ends all of them.  So whatever is declared can be written:
items in any order, with spaces between them, are lexed into one token each,
and its text leads back to the item.

    operators, functions, constants    to the only one with that text
    opening brackets                   to the first pair that opens so

There, as everywhere, a text is a lexeme of one kind only, whatever the other
texts are.
-/
import Reckoner.Proofs.Catalog.Lookup
import Reckoner.Proofs.Token.Spacing

namespace Reckoner

/-- What can be written: the parts of a definition, and numerals. -/
inductive Item where
  | operator (op : Operator)
  /-- What opens the arguments of a function. -/
  | callOpening (b : Brackets)
  /-- What opens a part of an expression. -/
  | groupOpening (b : Brackets)
  | closing (b : Brackets)
  | separator
  | function (f : Function)
  | constant (k : Constant)
  | literal (text : String)

/-- `FirstOpening bs text b`: no brackets of the list that open with the text come
before `b`, which do. -/
def Brackets.FirstOpening (bs : List Brackets) (text : String) (b : Brackets) : Prop :=
  ∃ before behind, bs = before ++ b :: behind ∧ b.opening = text ∧ ∀ b' ∈ before, b'.opening ≠ text

namespace Item

def kind : Item → Token.Kind
  | operator _ => .symbol .operator
  | callOpening _ | groupOpening _ => .symbol .opening
  | closing _ => .symbol .closing
  | separator => .symbol .separator
  | function _ | constant _ => .identifier
  | literal _ => .literal

def text (d : Definition) : Item → String
  | operator op => op.symbol
  | callOpening b | groupOpening b => b.opening
  | closing b => b.closing
  | separator => d.separator
  | function f => f.name
  | constant k => k.name
  | literal text => text

/-- Whether a definition has an item; it has all numerals. -/
def Declared (d : Definition) : Item → Prop
  | operator op => op ∈ d.operators
  | callOpening b => b ∈ d.functionBrackets
  | groupOpening b => b ∈ d.expressionBrackets
  | closing b => b ∈ d.functionBrackets ++ d.expressionBrackets
  | separator => True
  | function f => f ∈ d.functions
  | constant k => k ∈ d.constants
  | literal text => ∃ m e, Spells text.toList m e

/-- Whether a text leads to an item. -/
def FoundBy (d : Definition) (text : String) : Item → Prop
  | operator op => d.findOperator? text op.arity = some op
  | callOpening _ =>
      ∃ b, d.findFunctionBrackets? text = some b ∧ Brackets.FirstOpening d.functionBrackets text b
  | groupOpening _ =>
      ∃ b, d.findExpressionBrackets? text = some b ∧
        Brackets.FirstOpening d.expressionBrackets text b
  | function f => d.findFunction? text = some f
  | constant k => d.findFunction? text = none ∧ d.findConstant? text = some k
  | closing _ | separator | literal _ => True

end Item

/-- A search among brackets finds the first that open so. -/
theorem Brackets.exists_firstOpening {bs : List Brackets} {b : Brackets} (h : b ∈ bs) :
    ∃ b', bs.find? (fun b' => b'.opening = b.opening) = some b' ∧
      FirstOpening bs b.opening b' := by
  cases hfind : bs.find? (fun b' => b'.opening = b.opening) with
  | none => exact absurd (decide_eq_true rfl) (List.find?_eq_none.mp hfind b h)
  | some b' =>
      obtain ⟨hopening, before, behind, hbs, hbefore⟩ := List.find?_eq_some_iff_append.mp hfind
      refine ⟨b', rfl, before, behind, hbs, of_decide_eq_true hopening, fun x hx => ?_⟩
      simpa only [Bool.not_eq_true', decide_eq_false_iff_not] using hbefore x hx

namespace Item

variable {c : Catalog} {i : Item}

theorem Declared.lexeme (h : i.Declared c.toDefinition) :
    Lexeme c.toDefinition i.kind (i.text c.toDefinition).toList := by
  cases i with
  | operator op => exact .symbol (Definition.operator_mem_uses h)
  | callOpening b =>
      exact .symbol (Definition.brackets_mem_uses (List.mem_append_left _ h)).1
  | groupOpening b =>
      exact .symbol (Definition.brackets_mem_uses (List.mem_append_right _ h)).1
  | closing b => exact .symbol (Definition.brackets_mem_uses h).2
  | separator => exact .symbol Definition.separator_mem_uses
  | function f => exact .of_isName (Catalog.isName_of_mem_functions h)
  | constant k => exact .of_isName (Catalog.isName_of_mem_constants h)
  | literal text =>
      obtain ⟨m, e, hspells⟩ := h
      exact .numeral hspells

theorem Declared.foundBy (h : i.Declared c.toDefinition) :
    i.FoundBy c.toDefinition (i.text c.toDefinition) := by
  cases i with
  | operator op => exact Catalog.findOperator?_of_mem h
  | callOpening b | groupOpening b => exact Brackets.exists_firstOpening h
  | function f => exact Catalog.findFunction?_of_mem h
  | constant k =>
      have hfind := Catalog.findConstant?_of_mem h
      exact ⟨c.findFunction?_eq_none hfind, hfind⟩
  | closing | separator | literal => trivial

end Item

/-- Items that a catalog declares, and numerals, with single spaces between them are
lexed into one token each, of the kind and with the text of the item, and the text
leads back to the item. -/
theorem Catalog.lex_declared {d : Definition} {c : Catalog} (hc : Catalog.ofDefinition d = .ok c)
    (items : List Item) (h : ∀ i ∈ items, i.Declared d) :
    (c.lex (" ".intercalate (items.map (·.text d)))).stray = none ∧
      List.Forall₂ (fun i t => t.kind = i.kind ∧ t.text = i.text d ∧ i.FoundBy c.toDefinition t.text)
        items (c.lex (" ".intercalate (items.map (·.text d)))).tokens := by
  obtain rfl := toDefinition_of_ofDefinition hc
  have hpieces : ∀ p ∈ items.map (fun i => ((i.kind, i.text c.toDefinition) : Piece)),
      Lexeme c.toDefinition p.1 p.2.toList :=
    List.forall_mem_map.mpr fun i hi => (h i hi).lexeme
  obtain ⟨hstray, htokens⟩ := c.lex_intercalate _ hpieces
  rw [List.map_map] at hstray htokens
  have hsame := List.forall₂_map_right_iff.mp (List.forall₂_map_left_iff.mp
    (List.forall₂_eq_eq_eq ▸ htokens.symm))
  refine ⟨hstray, ((List.forall₂_and_left _ _).mpr ⟨h, hsame⟩).imp fun i t ⟨hi, he⟩ => ?_⟩
  obtain ⟨hkind, htext⟩ := Prod.mk.inj he
  exact ⟨hkind.symm, htext.symm, htext ▸ hi.foundBy⟩

/-- Symbols that begin one another, and brackets of both groups. -/
def Item.product : List Item :=
  [.function (Preset.several .max "max"), .callOpening Preset.parentheses,
    .groupOpening ⟨"((", "))"⟩, .literal "1.50", .operator (Preset.leftward .power "**" 4),
    .constant ⟨.pi, "pi"⟩, .closing ⟨"((", "))"⟩, .operator (Preset.leftward .multiply "*" 2),
    .groupOpening ⟨"𝄆", "𝄇"⟩, .operator (Preset.negate 3), .literal "07", .closing ⟨"𝄆", "𝄇"⟩,
    .separator, .constant ⟨.e, "e"⟩, .closing Preset.parentheses]

theorem Catalog.lex_product :
    ∃ c, Catalog.ofDefinition .starred = .ok c ∧
      (c.lex "max ( (( 1.50 ** pi )) * 𝄆 - 07 𝄇 , e )").stray = none ∧
      List.Forall₂ (fun i t => t.kind = i.kind ∧ t.text = i.text .starred ∧
        i.FoundBy c.toDefinition t.text) Item.product
          (c.lex "max ( (( 1.50 ** pi )) * 𝄆 - 07 𝄇 , e )").tokens := by
  obtain ⟨c, hc⟩ := Catalog.exists_of_isOk (d := .starred) (by decide +kernel)
  have hdigits : ∀ ds : List Char, ds.all isDigit = true → ∀ ch ∈ ds, isDigit ch = true :=
    fun _ => List.all_eq_true.mp
  have hpoint : ∃ m e, Spells (['1'] ++ '.' :: ['5', '0']) m e :=
    ⟨_, _, .point (by decide) (hdigits _ (by decide)) (by decide) (hdigits _ (by decide))⟩
  have hwhole : ∃ m e, Spells ['0', '7'] m e := ⟨_, _, .whole (by decide) (hdigits _ (by decide))⟩
  have hdeclared : ∀ i ∈ Item.product, i.Declared .starred := by
    simp only [Item.product, List.forall_mem_cons, Item.Declared]
    refine ⟨?_, ?_, ?_, hpoint, ?_, ?_, ?_, ?_, ?_, ?_, hwhole, ?_, trivial, ?_, ?_,
      List.forall_mem_nil _⟩
    all_goals decide +kernel
  have h := lex_declared hc Item.product hdeclared
  rw [show " ".intercalate (Item.product.map (·.text .starred)) =
    "max ( (( 1.50 ** pi )) * 𝄆 - 07 𝄇 , e )" by decide +kernel] at h
  exact ⟨c, hc, h⟩

end Reckoner
