/-
# What a catalog declares is found

In a consistent definition nothing hides anything else: two operators of one
arity are written differently, and so are two functions, two constants, and a
function and a constant.  So each of them is what its own text leads to, and a
search among the functions first loses no constant.
-/
import Mathlib.Data.List.Nodup
import Mathlib.Data.List.Pairwise
import Reckoner.Proofs.Catalog.Consistency
import Reckoner.Proofs.Catalog.Derived

namespace Reckoner

/-- What alone satisfies a test is what a search finds. -/
theorem find?_eq_some_of_unique {α : Type} {l : List α} {p : α → Bool} {x : α} (hx : x ∈ l)
    (hp : p x = true) (hu : ∀ y ∈ l, p y = true → y = x) : l.find? p = some x := by
  cases h : l.find? p with
  | none =>
      have := List.find?_eq_none.mp h x hx
      exact absurd hp this
  | some y => rw [hu y (List.mem_of_find?_eq_some h) (List.find?_some h)]

theorem Definition.Consistent.exists_ofDefinition {d : Definition} (h : d.Consistent) :
    ∃ c, Catalog.ofDefinition d = .ok c := by
  obtain ⟨claims, hc⟩ := h.exists_claims
  exact Catalog.exists_of_isOk (by rw [symbols?, hc]; rfl)

instance : Std.Symm Operator.Apart := ⟨fun _ _ h hs ha => h hs.symm ha.symm⟩

namespace Catalog

variable {c : Catalog} {name : String}

theorem findOperator?_eq_some_iff {symbol : String} {arity : Arity} {op : Operator} :
    c.findOperator? symbol arity = some op ↔
      op ∈ c.operators ∧ op.symbol = symbol ∧ op.arity = arity := by
  constructor
  · intro h
    have hp := List.find?_some h
    rw [Bool.and_eq_true, decide_eq_true_eq, decide_eq_true_eq] at hp
    exact ⟨List.mem_of_find?_eq_some h, hp⟩
  · rintro ⟨hmem, rfl, rfl⟩
    refine find?_eq_some_of_unique hmem (by simp only [decide_true, Bool.and_self])
      fun o ho hp => ?_
    rw [Bool.and_eq_true, decide_eq_true_eq, decide_eq_true_eq] at hp
    by_contra hne
    exact c.consistency.operators.forall ho hmem hne hp.1 hp.2

theorem findFunction?_eq_some_iff {f : Function} :
    c.findFunction? name = some f ↔ f ∈ c.functions ∧ f.name = name := by
  constructor
  · intro h
    have hp := List.find?_some h
    exact ⟨List.mem_of_find?_eq_some h, of_decide_eq_true hp⟩
  · rintro ⟨hmem, rfl⟩
    refine find?_eq_some_of_unique hmem (decide_eq_true rfl) fun g hg hp => ?_
    exact List.inj_on_of_nodup_map c.consistency.names.of_append_left hg hmem (of_decide_eq_true hp)

theorem findConstant?_eq_some_iff {k : Constant} :
    c.findConstant? name = some k ↔ k ∈ c.constants ∧ k.name = name := by
  constructor
  · intro h
    have hp := List.find?_some h
    exact ⟨List.mem_of_find?_eq_some h, of_decide_eq_true hp⟩
  · rintro ⟨hmem, rfl⟩
    refine find?_eq_some_of_unique hmem (decide_eq_true rfl) fun l hl hp => ?_
    exact List.inj_on_of_nodup_map c.consistency.names.of_append_right hl hmem
      (of_decide_eq_true hp)

theorem findOperator?_of_mem {op : Operator} (h : op ∈ c.operators) :
    c.findOperator? op.symbol op.arity = some op :=
  findOperator?_eq_some_iff.mpr ⟨h, rfl, rfl⟩

theorem findFunction?_of_mem {f : Function} (h : f ∈ c.functions) :
    c.findFunction? f.name = some f :=
  findFunction?_eq_some_iff.mpr ⟨h, rfl⟩

theorem findConstant?_of_mem {k : Constant} (h : k ∈ c.constants) :
    c.findConstant? k.name = some k :=
  findConstant?_eq_some_iff.mpr ⟨h, rfl⟩

theorem isName_of_mem_functions {f : Function} (h : f ∈ c.functions) : isName f.name = true :=
  isName_iff.mpr (c.consistency.letters _ (List.mem_append_left _ (List.mem_map_of_mem h)))

theorem isName_of_mem_constants {k : Constant} (h : k ∈ c.constants) : isName k.name = true :=
  isName_iff.mpr (c.consistency.letters _ (List.mem_append_right _ (List.mem_map_of_mem h)))

variable (c)

/-- No constant of a catalog has the name of one of its functions. -/
theorem name_ne {f : Function} {k : Constant} (hf : f ∈ c.functions) (hk : k ∈ c.constants) :
    f.name ≠ k.name :=
  (List.nodup_append.mp c.consistency.names).2.2 _ (List.mem_map_of_mem hf) _
    (List.mem_map_of_mem hk)

/-- A name of a constant is no name of a function. -/
theorem findFunction?_eq_none {k : Constant} (h : c.findConstant? name = some k) :
    c.findFunction? name = none := by
  obtain ⟨hk, rfl⟩ := findConstant?_eq_some_iff.mp h
  refine List.find?_eq_none.mpr fun f hf => ?_
  rw [decide_eq_true_eq]
  exact c.name_ne hf hk

theorem arity_of_findOperator? {symbol : String} {arity : Arity} {op : Operator}
    (h : c.findOperator? symbol arity = some op) : op.arity = arity :=
  (findOperator?_eq_some_iff.mp h).2.2

end Catalog

/-- What a catalog makes of a definition: the same lists, and for every key and every
fixed text what stands for it. -/
structure Catalog.Presents (c : Catalog) (d : Definition) : Prop where
  definition : c.toDefinition = d
  operator : ∀ symbol arity op, c.findOperator? symbol arity = some op ↔
    op ∈ d.operators ∧ op.symbol = symbol ∧ op.arity = arity
  function : ∀ name f, c.findFunction? name = some f ↔ f ∈ d.functions ∧ f.name = name
  constant : ∀ name k, c.findConstant? name = some k ↔ k ∈ d.constants ∧ k.name = name
  /-- The symbols are what the texts are used for. -/
  symbol : ∀ s, s ∈ c.symbols ↔ s ∈ d.uses
  /-- No text is a symbol twice. -/
  once : (c.symbols.map (·.text)).Nodup
  /-- The longest symbols come first, those of one length as they are first used. -/
  order : c.symbols.Pairwise fun s t => Text.units t.text < Text.units s.text ∨
    Text.units t.text = Text.units s.text ∧ d.uses.idxOf s < d.uses.idxOf t

theorem Catalog.presents (c : Catalog) : c.Presents c.toDefinition where
  definition := rfl
  operator := fun _ _ _ => findOperator?_eq_some_iff
  function := fun _ _ => findFunction?_eq_some_iff
  constant := fun _ _ => findConstant?_eq_some_iff
  symbol := fun _ => c.mem_symbols
  once := by
    refine List.pairwise_map.mpr (c.orderedBy_symbols.imp_of_mem fun hs ht h he => ?_)
    -- a text is used for one symbol only, which is not in order with itself
    cases c.claimable_uses.agree _ (c.mem_symbols.mp hs) _ (c.mem_symbols.mp ht) he
    omega
  order := c.orderedBy_symbols

/-- The definitions that are catalogs are the consistent ones, and a catalog presents its
definition. -/
theorem Definition.catalog_iff_consistent (d : Definition) :
    ((∃ c, Catalog.ofDefinition d = .ok c) ↔ d.Consistent) ∧
      ∀ c, Catalog.ofDefinition d = .ok c → c.Presents d := by
  have hd : ∀ c, Catalog.ofDefinition d = .ok c → c.toDefinition = d :=
    fun c hc => Catalog.toDefinition_of_ofDefinition hc
  refine ⟨⟨?_, Consistent.exists_ofDefinition⟩, fun c hc => ?_⟩
  · rintro ⟨c, hc⟩
    exact hd c hc ▸ c.consistency
  · exact hd c hc ▸ c.presents

/-- The built-in definition with symbols that begin one another, and with brackets beside
the parentheses. -/
def Definition.starred : Definition :=
  { Preset.definition .standard with
    operators := Preset.leftward .power "**" 4 :: Preset.operators .standard
    expressionBrackets := [Preset.parentheses, ⟨"((", "))"⟩, ⟨"𝄆", "𝄇"⟩] }

theorem Definition.starred_catalog :
    starred.Consistent ∧ ∃ c, Catalog.ofDefinition starred = .ok c ∧ c.Presents starred ∧
      c.symbols.map (·.text) =
        ["**", "((", "))", "𝄆", "𝄇", "-", "+", "*", "/", "^", "%", "(", ")", ","] := by
  obtain ⟨c, hc⟩ := Catalog.exists_of_isOk (d := starred) (by decide +kernel)
  have h := catalog_iff_consistent starred
  refine ⟨h.1.mp ⟨c, hc⟩, c, hc, h.2 c hc, ?_⟩
  have hs : starred.symbols? = .ok c.symbols :=
    Catalog.toDefinition_of_ofDefinition hc ▸ c.consistent
  have hmap : (starred.symbols?.toOption.map fun s => s.map (·.text)) =
    some ["**", "((", "))", "𝄆", "𝄇", "-", "+", "*", "/", "^", "%", "(", ")", ","] := by
      decide +kernel
  rw [hs] at hmap
  exact Option.some.inj hmap

end Reckoner
