/-
# The fixed texts of a catalog

`Definition.uses` lists what the parts of a definition want their texts to
stand for, in the order in which they are declared.  They can all be claimed if
they are `Claimable`:

    a text is free of letters, digits, points and blanks
    a text has one role

and what is claimed then are the uses, each once, in the order of their first
claims (`Claimed`).  That is what one claim adds to the claims before it.  The
symbols of a catalog are these claims sorted by length; insertion puts a text
before every shorter one, and behind those of its length that came before it.
-/
import Mathlib.Data.List.Basic
import Reckoner.Catalog.Consistency
import Reckoner.Proofs.Sequencing

namespace Reckoner

theorem isSymbolText_iff {s : String} : isSymbolText s = true ↔
    s ≠ "" ∧ ∀ ch ∈ s.toList, Text.isLetter ch = false ∧ isDigit ch = false ∧
      Text.isBlank ch = false ∧ ch ≠ '.' := by
  simp only [isSymbolText, Bool.and_eq_true, decide_eq_true_eq, List.all_eq_true,
    Bool.not_eq_true', and_assoc]

/-- The texts of the brackets of a list with their roles. -/
def Brackets.uses (bs : List Brackets) : List Symbol :=
  bs.flatMap fun b => [⟨b.opening, .opening⟩, ⟨b.closing, .closing⟩]

/-- What the texts of a definition stand for. -/
def Definition.uses (d : Definition) : List Symbol :=
  d.operators.map (⟨·.symbol, .operator⟩) ++
    (Brackets.uses (d.functionBrackets ++ d.expressionBrackets) ++ [⟨d.separator, .separator⟩])

namespace Definition

variable {d : Definition}

theorem operator_mem_uses {op : Operator} (h : op ∈ d.operators) :
    ⟨op.symbol, .operator⟩ ∈ d.uses :=
  List.mem_append_left _ (List.mem_map_of_mem h)

theorem brackets_mem_uses {b : Brackets} (h : b ∈ d.functionBrackets ++ d.expressionBrackets) :
    ⟨b.opening, .opening⟩ ∈ d.uses ∧ ⟨b.closing, .closing⟩ ∈ d.uses := by
  have hsub : ∀ s ∈ ([⟨b.opening, .opening⟩, ⟨b.closing, .closing⟩] : List Symbol), s ∈ d.uses :=
    fun s hs => List.mem_append_right _ (List.mem_append_left _ (List.mem_flatMap.mpr ⟨b, h, hs⟩))
  exact ⟨hsub _ List.mem_cons_self, hsub _ (List.mem_cons_of_mem _ List.mem_cons_self)⟩

theorem separator_mem_uses : ⟨d.separator, .separator⟩ ∈ d.uses :=
  List.mem_append_right _ (List.mem_append_right _ List.mem_cons_self)

end Definition

/-- Whether texts can stand for all that they are wanted for. -/
structure Claimable (uses : List Symbol) : Prop where
  /-- Each is the text of a symbol. -/
  sound : ∀ s ∈ uses, isSymbolText s.text = true
  /-- None is wanted for two things. -/
  agree : ∀ s ∈ uses, ∀ t ∈ uses, s.text = t.text → s = t

/-- `Claimed claims uses`: the uses are claimed, each of them once, in the order in
which they come first. -/
structure Claimed (claims uses : List Symbol) : Prop extends Claimable uses where
  mem_iff : ∀ s, s ∈ claims ↔ s ∈ uses
  ordered : claims.Pairwise fun s t => uses.idxOf s < uses.idxOf t

theorem Claimable.of_subset {uses fewer : List Symbol} (h : Claimable uses) (hsub : fewer ⊆ uses) :
    Claimable fewer where
  sound := fun s hs => h.sound s (hsub hs)
  agree := fun s hs t ht => h.agree s (hsub hs) t (hsub ht)

theorem Claimable.left {uses more : List Symbol} (h : Claimable (uses ++ more)) : Claimable uses :=
  h.of_subset (List.subset_append_left _ _)

namespace Claimed

variable {claims claims' uses : List Symbol}

theorem nil : Claimed [] [] := ⟨⟨nofun, nofun⟩, fun _ => Iff.rfl, .nil⟩

/-- More uses come behind, so what was used before comes first where it did. -/
theorem ordered_append (hc : Claimed claims uses) (more : List Symbol) :
    claims.Pairwise fun s t => (uses ++ more).idxOf s < (uses ++ more).idxOf t := by
  refine hc.ordered.imp_of_mem fun hs ht hlt => ?_
  rwa [List.idxOf_append_of_mem ((hc.mem_iff _).mp hs),
    List.idxOf_append_of_mem ((hc.mem_iff _).mp ht)]

/-- What a claim that is granted adds. -/
theorem claim {text : String} {role : Role} (hc : Claimed claims uses)
    (h : claim claims text role = .ok claims') : Claimed claims' (uses ++ [⟨text, role⟩]) := by
  unfold Reckoner.claim at h
  split at h
  · cases h
  · next htext =>
      rw [Bool.not_eq_true', Bool.not_eq_false] at htext
      have hall : ∀ s ∈ uses ++ [⟨text, role⟩], isSymbolText s.text = true :=
        List.forall_mem_append.mpr ⟨hc.sound, List.forall_mem_singleton.mpr htext⟩
      split at h
      · next s hfind =>
          have hs := (hc.mem_iff s).mp (List.mem_of_find?_eq_some hfind)
          have ht := List.find?_some hfind
          rw [decide_eq_true_eq] at ht
          split at h
          · next hrole =>
              cases h
              -- the symbol is among the claims, so nothing is added
              have hmem : (⟨text, role⟩ : Symbol) ∈ uses := by
                rwa [← ht, ← hrole]
              have hsub : ∀ t, t ∈ uses ++ [⟨text, role⟩] ↔ t ∈ uses := by
                intro t
                rw [List.mem_append, List.mem_singleton]
                exact ⟨fun h => h.elim id (· ▸ hmem), Or.inl⟩
              exact ⟨⟨hall, fun t ht u hu => hc.agree t ((hsub t).mp ht) u ((hsub u).mp hu)⟩,
                fun t => (hc.mem_iff t).trans (hsub t).symm, hc.ordered_append _⟩
          · cases h
      · next hfind =>
          cases h
          have hnew : ∀ s ∈ uses, s.text ≠ text := by
            intro s hs
            simpa only [decide_eq_true_eq] using
              List.find?_eq_none.mp hfind s ((hc.mem_iff s).mpr hs)
          refine ⟨⟨hall, ?_⟩, fun t => by simp only [List.mem_append, hc.mem_iff],
            List.pairwise_append.mpr ⟨hc.ordered_append _, List.pairwise_singleton _ _, ?_⟩⟩
          · intro s hs t ht he
            rcases List.mem_append.mp hs with hs | hs <;> rcases List.mem_append.mp ht with ht | ht
            · exact hc.agree s hs t ht he
            · cases List.mem_singleton.mp ht
              exact absurd he (hnew s hs)
            · cases List.mem_singleton.mp hs
              exact absurd he.symm (hnew t ht)
            · rw [List.mem_singleton.mp hs, List.mem_singleton.mp ht]
          · -- what was not used before comes first behind all that was
            intro s hs t ht
            cases List.mem_singleton.mp ht
            have hs := (hc.mem_iff s).mp hs
            rw [List.idxOf_append_of_mem hs,
              List.idxOf_append_of_notMem fun hmem => hnew _ hmem rfl]
            exact Nat.lt_of_lt_of_le (List.idxOf_lt_length_of_mem hs) (Nat.le_add_right _ _)

/-- A claim is granted where its text can stand for it beside all that was claimed. -/
theorem exists_claim_iff {text : String} {role : Role} (hc : Claimed claims uses) :
    (∃ claims', Reckoner.claim claims text role = .ok claims') ↔
      Claimable (uses ++ [⟨text, role⟩]) := by
  constructor
  · rintro ⟨claims', h⟩
    exact (hc.claim h).toClaimable
  · intro h
    have huse : (⟨text, role⟩ : Symbol) ∈ uses ++ [⟨text, role⟩] :=
      List.mem_append_right _ List.mem_cons_self
    have htext : isSymbolText text = true := h.sound _ huse
    unfold Reckoner.claim
    rw [htext, Bool.not_true, if_neg Bool.false_ne_true]
    cases hfind : claims.find? (·.text = text) with
    | none => exact ⟨_, rfl⟩
    | some s =>
        have hs := (hc.mem_iff s).mp (List.mem_of_find?_eq_some hfind)
        have ht := List.find?_some hfind
        rw [decide_eq_true_eq] at ht
        cases h.agree s (List.mem_append_left _ hs) _ huse ht
        exact ⟨claims, if_pos rfl⟩

theorem operators {seen ops : List Operator} (hc : Claimed claims uses)
    (h : Definition.checkOperators seen claims ops = .ok claims') :
    Claimed claims' (uses ++ ops.map (⟨·.symbol, .operator⟩)) := by
  induction ops generalizing seen claims uses with
  | nil =>
      cases h
      rwa [List.map_nil, List.append_nil]
  | cons op ops ih =>
      simp only [Definition.checkOperators, check_eq_ok, bind_eq_ok] at h
      obtain ⟨_, _, mid, hclaim, h⟩ := h
      have := ih (hc.claim hclaim) h
      rwa [List.append_assoc, List.singleton_append] at this

theorem brackets {bs : List Brackets} (hc : Claimed claims uses)
    (h : Definition.checkBrackets claims bs = .ok claims') :
    Claimed claims' (uses ++ Brackets.uses bs) := by
  induction bs generalizing claims uses with
  | nil =>
      cases h
      rwa [Brackets.uses, List.flatMap_nil, List.append_nil]
  | cons b bs ih =>
      rw [Definition.checkBrackets] at h
      split at h
      · cases h
      · simp only [bind_eq_ok] at h
        obtain ⟨opened, hopen, closed, hclose, h⟩ := h
        have := ih ((hc.claim hopen).claim hclose) h
        simpa only [Brackets.uses, List.flatMap_cons, List.append_assoc, List.cons_append,
          List.nil_append] using this

/-- What is claimed by all parts of a definition. -/
theorem definition {d : Definition} (h : d.claims? = .ok claims) : Claimed claims d.uses := by
  simp only [Definition.claims?, bind_eq_ok] at h
  obtain ⟨ops, hops, _, _, _, _, bs, hbs, hsep⟩ := h
  have := ((nil.operators hops).brackets hbs).claim hsep
  rwa [List.nil_append, List.append_assoc] at this

end Claimed

/-! ## The order of the symbols -/

namespace Symbol

variable {s t : Symbol} {symbols : List Symbol}

/-- Symbols are in order if none comes before a longer one. -/
def Ordered (symbols : List Symbol) : Prop :=
  symbols.Pairwise fun s t => Text.units t.text ≤ Text.units s.text

/-- `OrderedBy R symbols`: the longest come first, and those of one length are in the
relation `R`. -/
def OrderedBy (R : Symbol → Symbol → Prop) (symbols : List Symbol) : Prop :=
  symbols.Pairwise fun s t => Text.units t.text < Text.units s.text ∨
    Text.units t.text = Text.units s.text ∧ R s t

variable {R : Symbol → Symbol → Prop}

theorem OrderedBy.ordered (h : OrderedBy R symbols) : Ordered symbols :=
  List.Pairwise.imp (fun h => h.elim Nat.le_of_lt fun h => Nat.le_of_eq h.1) h

theorem mem_insertByLength : t ∈ insertByLength s symbols ↔ t = s ∨ t ∈ symbols := by
  induction symbols with
  | nil => exact List.mem_cons
  | cons u rest ih =>
      unfold insertByLength
      split
      · exact List.mem_cons
      · rw [List.mem_cons, ih, List.mem_cons]
        exact or_left_comm

/-- What is put in comes behind those of its length. -/
theorem OrderedBy.insertByLength (h : OrderedBy R symbols) (hs : ∀ t ∈ symbols, R t s) :
    OrderedBy R (insertByLength s symbols) := by
  induction symbols with
  | nil => exact List.pairwise_singleton _ _
  | cons u rest ih =>
      obtain ⟨hu, hrest⟩ := List.pairwise_cons.mp h
      obtain ⟨hus, hrests⟩ := List.forall_mem_cons.mp hs
      unfold Symbol.insertByLength
      split
      · next hlt =>
          refine List.pairwise_cons.mpr ⟨List.forall_mem_cons.mpr ⟨.inl hlt, fun t ht => ?_⟩, h⟩
          have := hu t ht
          omega
      · next hge =>
          refine List.pairwise_cons.mpr ⟨fun t ht => ?_, ih hrest hrests⟩
          rcases mem_insertByLength.mp ht with rfl | ht
          · rcases Nat.lt_or_eq_of_le (Nat.le_of_not_lt hge) with hlt | heq
            · exact .inl hlt
            · exact .inr ⟨heq, hus⟩
          · exact hu t ht

/-- Sorting keeps what is there, puts the longest first, and keeps the order of
those of one length. -/
theorem longestFirst_spec (symbols : List Symbol) :
    (∀ s, s ∈ longestFirst symbols ↔ s ∈ symbols) ∧
      ∀ R : Symbol → Symbol → Prop, symbols.Pairwise R → OrderedBy R (longestFirst symbols) := by
  suffices h : ∀ sorted,
      (∀ s, s ∈ symbols.foldl (fun sorted s => Symbol.insertByLength s sorted) sorted ↔
        s ∈ sorted ∨ s ∈ symbols) ∧
      ∀ R, OrderedBy R sorted → symbols.Pairwise R → (∀ t ∈ sorted, ∀ s ∈ symbols, R t s) →
        OrderedBy R (symbols.foldl (fun sorted s => Symbol.insertByLength s sorted) sorted) by
    obtain ⟨hmem, hord⟩ := h []
    exact ⟨fun s => (hmem s).trans (by simp only [List.not_mem_nil, false_or]),
      fun R hR => hord R .nil hR (List.forall_mem_nil _)⟩
  induction symbols with
  | nil => exact fun sorted => ⟨fun s => by simp only [List.foldl_nil, List.not_mem_nil, or_false],
      fun R h _ _ => h⟩
  | cons s rest ih =>
      intro sorted
      obtain ⟨hmem, hord⟩ := ih (Symbol.insertByLength s sorted)
      refine ⟨fun t => ?_, fun R h hR hall => ?_⟩
      · rw [List.foldl_cons, hmem, mem_insertByLength, List.mem_cons, or_assoc, or_left_comm]
      · obtain ⟨hs, hrest⟩ := List.pairwise_cons.mp hR
        refine hord R (h.insertByLength fun t ht => hall t ht s List.mem_cons_self) hrest ?_
        intro t ht u hu
        rcases mem_insertByLength.mp ht with rfl | ht
        · exact hs u hu
        · exact hall t ht u (List.mem_cons_of_mem _ hu)

end Symbol

/-! ## The symbols of a catalog -/

namespace Catalog

variable (c : Catalog)

/-- The fixed texts of a catalog are what its definition claims, sorted. -/
theorem exists_claims :
    ∃ claims, c.claims? = .ok claims ∧ Symbol.longestFirst claims = c.symbols := by
  have h := c.consistent
  rw [Definition.symbols?] at h
  cases hc : c.claims? with
  | error fault =>
      rw [hc] at h
      cases h
  | ok claims =>
      rw [hc] at h
      exact ⟨claims, rfl, Except.ok.inj h⟩

theorem mem_symbols {s : Symbol} : s ∈ c.symbols ↔ s ∈ c.uses := by
  obtain ⟨claims, hc, hs⟩ := c.exists_claims
  rw [← hs, (Symbol.longestFirst_spec claims).1]
  exact (Claimed.definition hc).mem_iff s

/-- Symbols of one length are in the order in which they were first claimed. -/
theorem orderedBy_symbols :
    Symbol.OrderedBy (fun s t => c.uses.idxOf s < c.uses.idxOf t) c.symbols := by
  obtain ⟨claims, hc, hs⟩ := c.exists_claims
  exact hs ▸ (Symbol.longestFirst_spec claims).2 _ (Claimed.definition hc).ordered

theorem ordered_symbols : Symbol.Ordered c.symbols := c.orderedBy_symbols.ordered

theorem claimable_uses : Claimable c.uses := by
  obtain ⟨_, hc, _⟩ := c.exists_claims
  exact (Claimed.definition hc).toClaimable

variable {c}

theorem isSymbolText_of_mem_uses {s : Symbol} (h : s ∈ c.uses) : isSymbolText s.text = true :=
  c.claimable_uses.sound s h

/-- A text stands for one thing only. -/
theorem role_unique {text : String} {role role' : Role} (h : ⟨text, role⟩ ∈ c.uses)
    (h' : ⟨text, role'⟩ ∈ c.uses) : role = role' :=
  congrArg Symbol.role (c.claimable_uses.agree _ h _ h' rfl)

end Catalog

end Reckoner
