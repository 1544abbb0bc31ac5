/-
# Catalogs derived from the built-in ones

Relabelling and restricting change texts and leave things out, but they change
neither what is computed nor how many operands it takes.  So every catalog
that is made from a built-in one in this way still says two things that make
its primitives safe to call:

    an operator with one operand negates it
    a function that needs an argument has a least number of one
-/
import Reckoner.Catalog.Derivation
import Reckoner.Catalog.Preset

namespace Reckoner

namespace Catalog

/-- The catalogs that are made from the built-in ones. -/
inductive Derived : Catalog → Prop
  | preset (style : Style) : Derived (Preset.catalog style)
  | relabel {c c' : Catalog} {labels : Labels} :
      Derived c → c.relabel labels = .ok c' → Derived c'
  | restrict {c c' : Catalog} {selection : Selection} :
      Derived c → c.restrict selection = .ok c' → Derived c'

theorem toDefinition_of_ofDefinition {d : Definition} {c : Catalog}
    (h : ofDefinition d = .ok c) : c.toDefinition = d := by
  unfold ofDefinition at h
  split at h
  · cases h
    rfl
  · cases h

theorem exists_of_isOk {d : Definition} (h : d.symbols?.isOk = true) :
    ∃ c, ofDefinition d = .ok c := by
  unfold ofDefinition
  split
  · exact ⟨_, rfl⟩
  · next hd =>
      rw [hd] at h
      cases h

end Catalog

/-- Whether an operator has the operands that it computes with. -/
def Operator.Supplied (op : Operator) : Prop := op.arity = .unary → op.id = .negate

/-- Whether a function has the arguments that it computes with. -/
def Function.Supplied (f : Function) : Prop := f.id = .random ∨ f.least = .ofNat 1

/-- Whether all operators and functions have what they compute with. -/
structure Definition.Supplied (d : Definition) : Prop where
  /-- The operators. -/
  operators : ∀ op ∈ d.operators, op.Supplied
  /-- The functions. -/
  functions : ∀ f ∈ d.functions, f.Supplied

namespace Definition

theorem supplied_preset (style : Style) : (Preset.definition style).Supplied where
  operators := by
    intro op hop
    simp only [Preset.definition, Preset.operators, Preset.negate, Preset.leftward,
      List.mem_cons, List.not_mem_nil, or_false] at hop
    rcases hop with rfl | rfl | rfl | rfl | rfl | rfl | rfl
    · exact fun _ => rfl
    all_goals
      intro h
      cases h
  functions := by
    intro f hf
    simp only [Preset.definition, Preset.functions, Preset.single, Preset.several,
      List.mem_cons, List.not_mem_nil, or_false] at hf
    rcases hf with rfl | rfl | rfl | rfl | rfl | rfl | rfl | rfl | rfl | rfl | rfl | rfl | rfl |
      rfl | rfl | rfl | rfl | rfl | rfl | rfl
    all_goals first | exact Or.inl rfl | exact Or.inr rfl

variable {d : Definition}

theorem Supplied.relabel (h : d.Supplied) (labels : Labels) : (d.relabel labels).Supplied where
  operators := by
    intro op hop
    obtain ⟨op', hop', rfl⟩ := List.mem_map.mp hop
    exact h.operators op' hop'
  functions := by
    intro f hf
    obtain ⟨f', hf', rfl⟩ := List.mem_map.mp hf
    exact h.functions f' hf'

theorem Supplied.restrict (h : d.Supplied) (selection : Selection) :
    (d.restrict selection).Supplied where
  operators := fun op hop => h.operators op (List.mem_filter.mp hop).1
  functions := fun f hf => h.functions f (List.mem_filter.mp hf).1

end Definition

theorem Catalog.Derived.supplied {c : Catalog} (h : c.Derived) : c.toDefinition.Supplied := by
  induction h with
  | preset style => exact Definition.supplied_preset style
  | relabel _ hc ih =>
      rw [toDefinition_of_ofDefinition hc]
      exact ih.relabel _
  | restrict _ hc ih =>
      rw [toDefinition_of_ofDefinition hc]
      exact ih.restrict _

end Reckoner
