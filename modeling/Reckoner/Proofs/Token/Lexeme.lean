/-
# The longest lexeme

A lexeme is a text that may form a token: `digits [ "." digits ]`, a run of
letters, or a fixed text of the catalog with its role.  The first character
tells the three apart,

    a digit           a numeral
    a letter          a name
    anything else     a symbol, which has neither, nor spacing, nor a point

so the longest lexeme at a place is the longest of its sort, and what the
lexer finds there.  Among symbols this rests on their order: of those that the
characters start with, the first is the longest.
-/
import Reckoner.Proofs.Catalog.Consistency
import Reckoner.Proofs.Token.Numeral

namespace Reckoner

/-- `Lexeme d kind cs`: the characters may be a token of a kind. -/
inductive Lexeme (d : Definition) : Token.Kind → List Char → Prop
  | numeral {cs : List Char} {m : Nat} {e : Int} : Spells cs m e → Lexeme d .literal cs
  | name {cs : List Char} :
      cs ≠ [] → (∀ ch ∈ cs, Text.isLetter ch = true) → Lexeme d .identifier cs
  | symbol {text : String} {role : Role} :
      ⟨text, role⟩ ∈ d.uses → Lexeme d (.symbol role) text.toList

/-- `Munch d kind text rest`: where `text` and `rest` follow, `text` is a lexeme
of a kind, and no lexeme there is longer. -/
structure Munch (d : Definition) (kind : Token.Kind) (text rest : List Char) : Prop where
  lexeme : Lexeme d kind text
  longest : ∀ kind' text', Lexeme d kind' text' → text' <+: text ++ rest →
    text'.length ≤ text.length

/-! ## Sorts of characters -/

namespace Text

theorem charUnits_pos (ch : Char) : 0 < charUnits ch := by
  unfold charUnits
  split <;> decide

theorem unitsOf_append (cs ds : List Char) : unitsOf (cs ++ ds) = unitsOf cs + unitsOf ds := by
  induction cs with
  | nil => exact (Nat.zero_add _).symm
  | cons ch cs ih => rw [List.cons_append, unitsOf, unitsOf, ih, Nat.add_assoc]

theorem isLetter_eq_false_of_lt {ch : Char} (h : ch.toNat < 0x41) : isLetter ch = false := by
  rw [isLetter, letterRanges, inRanges, if_pos h]

theorem isLetter_of_isDigit {ch : Char} (h : isDigit ch = true) : isLetter ch = false := by
  simp only [isDigit, Bool.and_eq_true, decide_eq_true_eq, Char.le_def, UInt32.le_iff_toNat_le] at h
  have hhigh : ch.toNat ≤ 57 := h.2
  exact isLetter_eq_false_of_lt (by omega)

theorem isSpacing_iff {ch : Char} : isSpacing ch = true ↔
    ch.toNat = 0x20 ∨ ch.toNat = 0xA0 ∨ 0x09 ≤ ch.toNat ∧ ch.toNat ≤ 0x0D := by
  simp only [isSpacing, Bool.or_eq_true, Bool.and_eq_true, decide_eq_true_eq, or_assoc]

theorem isLetter_of_isSpacing {ch : Char} (h : isSpacing ch = true) : isLetter ch = false := by
  rcases isSpacing_iff.mp h with h | h | h
  · exact isLetter_eq_false_of_lt (by omega)
  · -- the no-break space lies between two ranges of letters
    rw [isLetter, h]
    rfl
  · exact isLetter_eq_false_of_lt (by omega)

theorem isBlank_of_isSpacing {ch : Char} (h : isSpacing ch = true) : isBlank ch = true := by
  have hcases := isSpacing_iff.mp h
  simp only [isBlank, blankRanges, inRanges]
  grind

end Text

/-- Whether a character may start a lexeme of a kind. -/
def Token.Kind.starts (kind : Token.Kind) (ch : Char) : Bool :=
  match kind with
  | .literal => isDigit ch
  | .identifier => Text.isLetter ch
  | _ => !isDigit ch && !Text.isLetter ch

namespace Lexeme

variable {c : Catalog} {kind kind' : Token.Kind} {cs : List Char}

theorem of_isName {d : Definition} {s : String} (h : isName s = true) :
    Lexeme d .identifier s.toList := by
  obtain ⟨hne, hall⟩ := isName_iff.mp h
  exact .name (fun hnil => hne (String.toList_eq_nil_iff.mp hnil)) hall

theorem exists_cons (h : Lexeme c.toDefinition kind cs) :
    ∃ ch rest, cs = ch :: rest ∧ kind.starts ch = true := by
  cases h with
  | numeral h =>
      obtain ⟨ch, rest, hcs, hd⟩ := h.exists_cons
      exact ⟨ch, rest, hcs, hd⟩
  | name hne hall =>
      obtain ⟨ch, rest, rfl⟩ := List.exists_cons_of_ne_nil hne
      exact ⟨ch, rest, rfl, hall ch List.mem_cons_self⟩
  | @symbol text _ h =>
      obtain ⟨hne, hall⟩ := isSymbolText_iff.mp (Catalog.isSymbolText_of_mem_uses h)
      obtain ⟨ch, rest, hcs⟩ := List.exists_cons_of_ne_nil
        (fun hnil => hne (String.toList_eq_nil_iff.mp hnil))
      have hch := hall ch (hcs ▸ List.mem_cons_self)
      refine ⟨ch, rest, hcs, ?_⟩
      simp only [Token.Kind.starts, hch.1, hch.2.1, Bool.not_false, Bool.and_self]

theorem ne_nil (h : Lexeme c.toDefinition kind cs) : cs ≠ [] := by
  obtain ⟨ch, rest, rfl, -⟩ := h.exists_cons
  exact List.cons_ne_nil ch rest

theorem kind_mem_known {d : Definition} (h : Lexeme d kind cs) : kind ∈ Token.Kind.known := by
  cases h with
  | numeral | name => decide
  | @symbol _ role => cases role <;> decide

/-- No lexeme holds spacing. -/
theorem isSpacing_eq_false (h : Lexeme c.toDefinition kind cs) :
    ∀ ch ∈ cs, Text.isSpacing ch = false := by
  have hpoint : Text.isSpacing '.' = false := by decide
  cases h with
  | numeral h =>
      cases h with
      | whole _ hds => exact fun ch hch => Token.isSpacing_of_isDigit (hds ch hch)
      | point _ hds _ hfs =>
          exact List.forall_mem_append.mpr ⟨fun ch hch => Token.isSpacing_of_isDigit (hds ch hch),
            List.forall_mem_cons.mpr
              ⟨hpoint, fun ch hch => Token.isSpacing_of_isDigit (hfs ch hch)⟩⟩
  | name _ hall =>
      intro ch hch
      rw [← Bool.not_eq_true]
      intro hs
      have := hall ch hch
      rw [Text.isLetter_of_isSpacing hs] at this
      cases this
  | symbol h =>
      intro ch hch
      rw [← Bool.not_eq_true]
      intro hs
      have := ((isSymbolText_iff.mp (Catalog.isSymbolText_of_mem_uses h)).2 ch hch).2.2.1
      rw [Text.isBlank_of_isSpacing hs] at this
      cases this

/-- A text is a lexeme of one kind only. -/
theorem kind_unique (h : Lexeme c.toDefinition kind cs) (h' : Lexeme c.toDefinition kind' cs) :
    kind = kind' := by
  obtain ⟨ch, rest, hcs, hstart⟩ := h.exists_cons
  obtain ⟨ch', rest', hcs', hstart'⟩ := h'.exists_cons
  cases (List.cons.inj (hcs.symm.trans hcs')).1
  have hdisjoint : isDigit ch = true → Text.isLetter ch = false := Text.isLetter_of_isDigit
  cases h with
  | numeral _ => cases h' <;> grind [Token.Kind.starts]
  | name _ _ => cases h' <;> grind [Token.Kind.starts]
  | @symbol text role h =>
      generalize htext : text.toList = ds at h'
      cases h' with
      | numeral _ => grind [Token.Kind.starts]
      | name _ _ => grind [Token.Kind.starts]
      | symbol h' =>
          cases String.toList_injective htext
          rw [Catalog.role_unique h h']

end Lexeme

/-! ## The longest numeral -/

namespace Token

/-- No numeral at the start is longer. -/
theorem length_le_numeralLength {text rest : List Char} {m : Nat} {e : Int}
    (h : Spells text m e) : text.length ≤ numeralLength (text ++ rest) := by
  unfold numeralLength
  cases h with
  | whole _ hds =>
      have hle : text.length ≤ ((text ++ rest).takeWhile isDigit).length := by
        rw [List.takeWhile_append_of_pos hds, List.length_append]
        exact Nat.le_add_right _ _
      grind
  | @point ds fs _ hds hne hfs =>
      rw [List.append_assoc, List.cons_append, (takeWhile_digits_point hds _).1,
        (takeWhile_digits_point hds _).2]
      have hle : fs.length ≤ ((fs ++ rest).takeWhile isDigit).length := by
        rw [List.takeWhile_append_of_pos hfs, List.length_append]
        exact Nat.le_add_right _ _
      have hpos := List.length_pos_iff.mpr hne
      simp only [List.length_append, List.length_cons]
      grind

theorem isDigit_of_mem_takeWhile {cs : List Char} :
    ∀ ch ∈ cs.takeWhile isDigit, isDigit ch = true :=
  fun _ h => List.all_eq_true.mp List.all_takeWhile _ h

/-- What the lexer takes for a numeral is one. -/
theorem exists_numeral {ch : Char} (rest : List Char) (hd : isDigit ch = true) :
    ∃ text rest' m e, ch :: rest = text ++ rest' ∧ text.length = numeralLength (ch :: rest) ∧
      Spells text m e := by
  have hne : (ch :: rest).takeWhile isDigit ≠ [] := by
    rw [List.takeWhile_cons_of_pos hd]
    exact List.cons_ne_nil _ _
  have hsplit : (ch :: rest).takeWhile isDigit ++ (ch :: rest).dropWhile isDigit = ch :: rest :=
    List.takeWhile_append_dropWhile
  have hwhole : ∃ text rest' m e, ch :: rest = text ++ rest' ∧
      text.length = ((ch :: rest).takeWhile isDigit).length ∧ Spells text m e :=
    ⟨_, _, _, _, hsplit.symm, rfl, .whole hne isDigit_of_mem_takeWhile⟩
  unfold numeralLength
  split
  · next behind hbehind =>
      split
      · exact hwhole
      · next fraction hfraction =>
          have hne' : behind.takeWhile isDigit ≠ [] :=
            List.ne_nil_of_length_pos (by omega)
          refine ⟨_, behind.dropWhile isDigit, _, _, ?_, ?_,
            .point hne isDigit_of_mem_takeWhile hne' isDigit_of_mem_takeWhile⟩
          · rw [List.append_assoc, List.cons_append, List.takeWhile_append_dropWhile, ← hbehind,
              hsplit]
          · dsimp only
            rw [List.length_append, List.length_cons, hfraction]
            omega
  · exact hwhole

/-! ## What the lexer finds at the start -/

/-- Of two prefixes of one list, one with no more units has no more characters. -/
theorem length_le_of_units_le {cs text text' : List Char} (h : text <+: cs) (h' : text' <+: cs)
    (hle : Text.unitsOf text' ≤ Text.unitsOf text) : text'.length ≤ text.length := by
  rcases List.prefix_or_prefix_of_prefix h h' with ⟨more, rfl⟩ | hp
  · cases more with
    | nil => exact Nat.le_of_eq (congrArg List.length (List.append_nil text))
    | cons ch more =>
        rw [Text.unitsOf_append, Text.unitsOf] at hle
        have := Text.charUnits_pos ch
        omega
  · exact hp.length_le

variable {c : Catalog} {kind : Token.Kind}

/-- The symbol that the lexer finds is the longest that the characters start with. -/
theorem findSymbol?_spec {cs : List Char} {s : Symbol} (h : findSymbol? c.symbols cs = some s) :
    s ∈ c.uses ∧ s.text.toList <+: cs ∧
      ∀ t ∈ c.uses, t.text.toList <+: cs → t.text.toList.length ≤ s.text.toList.length := by
  obtain ⟨hs, before, behind, hsymbols, hbefore⟩ := List.find?_eq_some_iff_append.mp h
  have hprefix : s.text.toList <+: cs := List.isPrefixOf_iff_prefix.mp hs
  have hmem : s ∈ c.symbols := List.mem_of_find?_eq_some h
  have hordered := c.ordered_symbols
  rw [Symbol.Ordered, hsymbols, List.pairwise_append, List.pairwise_cons] at hordered
  refine ⟨c.mem_symbols.mp hmem, hprefix, fun t ht htp => ?_⟩
  have ht := c.mem_symbols.mpr ht
  rw [hsymbols] at ht
  rcases List.mem_append.mp ht with ht | ht
  · -- those in front of it do not fit
    have := hbefore t ht
    rw [List.isPrefixOf_iff_prefix.mpr htp] at this
    cases this
  · rcases List.mem_cons.mp ht with rfl | ht
    · exact Nat.le_refl _
    · exact length_le_of_units_le hprefix htp (hordered.2.1.1 t ht)

theorem findSymbol?_eq_none {cs : List Char} :
    findSymbol? c.symbols cs = none ↔ ∀ s ∈ c.uses, ¬ s.text.toList <+: cs := by
  simp only [findSymbol?, List.find?_eq_none, List.isPrefixOf_iff_prefix, c.mem_symbols]

theorem head?_eq_none {ch : Char} {cs : List Char} : head? c.symbols (ch :: cs) = none ↔
    isDigit ch = false ∧ Text.isLetter ch = false ∧ ∀ s ∈ c.uses, ¬ s.text.toList <+: ch :: cs := by
  simp only [head?]
  cases isDigit ch with
  | true => simp only [if_true, reduceCtorEq, false_and]
  | false =>
      cases Text.isLetter ch with
      | true =>
          simp only [Bool.false_eq_true, if_false, if_true, reduceCtorEq, false_and, and_false]
      | false =>
          simp only [Bool.false_eq_true, if_false, Option.map_eq_none_iff, findSymbol?_eq_none,
            true_and]

end Token

section

variable {c : Catalog} {kind kind' : Token.Kind} {ch : Char} {cs text rest : List Char}

/-- A lexeme at the start is of a kind that starts so. -/
theorem Lexeme.starts_of_prefix (h : Lexeme c.toDefinition kind text) (hp : text <+: ch :: rest) :
    kind.starts ch = true := by
  obtain ⟨ch', text', rfl, hstart⟩ := h.exists_cons
  cases (List.cons_prefix_cons.mp hp).1
  exact hstart

namespace Token

/-- What the lexer finds is the longest lexeme. -/
theorem exists_munch {length : Nat} (h : head? c.symbols cs = some (kind, length)) :
    ∃ text rest, cs = text ++ rest ∧ text.length = length ∧ Munch c.toDefinition kind text rest := by
  cases cs with
  | nil => cases h
  | cons ch cs =>
      have hdisjoint : isDigit ch = true → Text.isLetter ch = false := Text.isLetter_of_isDigit
      simp only [head?] at h
      split at h
      · next hd =>
          cases h
          obtain ⟨text, rest, m, e, hcs, hlength, hspells⟩ := exists_numeral cs hd
          refine ⟨text, rest, hcs, hlength, .numeral hspells, fun kind' text' hl hp => ?_⟩
          rw [← hcs] at hp
          have hstart := hl.starts_of_prefix hp
          cases hl with
          | numeral hspells' =>
              obtain ⟨rest', hrest'⟩ := hp
              rw [hlength, ← hrest']
              exact length_le_numeralLength hspells'
          | name _ _ => grind [Kind.starts]
          | symbol _ => grind [Kind.starts]
      · split at h
        · next hd hletter =>
            cases h
            refine ⟨(ch :: cs).takeWhile Text.isLetter, (ch :: cs).dropWhile Text.isLetter,
              List.takeWhile_append_dropWhile.symm, rfl, .name ?_ ?_, fun kind' text' hl hp => ?_⟩
            · rw [List.takeWhile_cons_of_pos hletter]
              exact List.cons_ne_nil _ _
            · exact fun _ h => List.all_eq_true.mp List.all_takeWhile _ h
            · rw [List.takeWhile_append_dropWhile] at hp
              have hstart := hl.starts_of_prefix hp
              cases hl with
              | numeral _ => grind [Kind.starts]
              | name _ hall =>
                  obtain ⟨rest', hrest'⟩ := hp
                  rw [← hrest', List.takeWhile_append_of_pos hall, List.length_append]
                  exact Nat.le_add_right _ _
              | symbol _ => grind [Kind.starts]
        · next hd hletter =>
            obtain ⟨s, hfind, hs⟩ := Option.map_eq_some_iff.mp h
            cases hs
            obtain ⟨hmem, ⟨rest, hrest⟩, hlongest⟩ := findSymbol?_spec hfind
            refine ⟨s.text.toList, rest, hrest.symm, rfl, .symbol hmem, fun kind' text' hl hp => ?_⟩
            rw [hrest] at hp
            have hstart := hl.starts_of_prefix hp
            cases hl with
            | numeral _ => grind [Kind.starts]
            | name _ _ => grind [Kind.starts]
            | symbol hmem' => exact hlongest _ hmem' hp

/-- Where the lexer finds nothing, no lexeme starts. -/
theorem not_prefix_of_head? (h : head? c.symbols cs = none) (hl : Lexeme c.toDefinition kind text) :
    ¬ text <+: cs := by
  intro hp
  cases cs with
  | nil => exact hl.ne_nil (List.prefix_nil.mp hp)
  | cons ch cs =>
      obtain ⟨hd, hletter, hsymbol⟩ := head?_eq_none.mp h
      have hstart := hl.starts_of_prefix hp
      cases hl with
      | numeral _ => grind [Kind.starts]
      | name _ _ => grind [Kind.starts]
      | symbol hmem => exact hsymbol _ hmem hp

end Token

/-- The longest lexeme is what the lexer finds. -/
theorem Munch.head?_eq (h : Munch c.toDefinition kind text rest) :
    Token.head? c.symbols (text ++ rest) = some (kind, text.length) := by
  have hp : text <+: text ++ rest := List.prefix_append text rest
  cases hhead : Token.head? c.symbols (text ++ rest) with
  | none => exact absurd hp (Token.not_prefix_of_head? hhead h.lexeme)
  | some found =>
      obtain ⟨text', rest', hsplit, hlength, hmunch⟩ := Token.exists_munch hhead
      have hp' : text' <+: text ++ rest := hsplit ▸ List.prefix_append text' rest'
      have hle := h.longest _ _ hmunch.lexeme hp'
      have hge := hmunch.longest _ _ h.lexeme (hsplit ▸ hp)
      obtain ⟨rfl, _⟩ := List.append_inj hsplit (Nat.le_antisymm hge hle)
      rw [h.lexeme.kind_unique hmunch.lexeme, hlength]

end

end Reckoner
