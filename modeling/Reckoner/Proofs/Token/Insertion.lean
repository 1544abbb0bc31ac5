/-
# Parentheses put into a source

`Preset.enclose` puts into the text of a source the parentheses that
`Scan.enclose` puts among its tokens, and leaves everything else as it is,
spacing included.  The new source is lexed into the new tokens, up to their
places (`lex_enclose`).

A lexeme that was the longest stays the longest.  What comes behind it is
either a parenthesis, with which no numeral and no name goes on, or begins with
the character that came behind it before.  That alone would not keep `1` and
`.5` apart behind a `1` that `.` followed; but nothing can be lexed that begins
with a point.
-/
import Reckoner.Proofs.Grammar.Enclosing
import Reckoner.Proofs.Token.MaximalMunch

namespace Reckoner

/-- `Lexes d cs ts`: the characters are lexed to the end, into `ts` up to places. -/
inductive Lexes (d : Definition) : List Char → List Token → Prop
  | nil : Lexes d [] []
  | spacing {ch : Char} {rest : List Char} {ts : List Token} :
      Text.isSpacing ch = true → Lexes d rest ts → Lexes d (ch :: rest) ts
  | token {t : Token} {rest : List Char} {ts : List Token} :
      Munch d t.kind t.text.toList rest → Lexes d rest ts →
      Lexes d (t.text.toList ++ rest) (t :: ts)

section

variable {c : Catalog}

theorem lexes_lexFrom (offset : Nat) (cs : List Char)
    (h : (Token.lexFrom c.symbols offset cs).stray = none) :
    Lexes c.toDefinition cs (Token.lexFrom c.symbols offset cs).tokens := by
  induction cs using Token.lex_induction c generalizing offset with
  | nil =>
      rw [Token.lexFrom]
      exact .nil
  | spacing ch rest hspacing ih =>
      rw [Token.lexFrom_spacing hspacing] at h ⊢
      exact .spacing hspacing (ih _ h)
  | stray ch rest hspacing hhead =>
      rw [Token.lexFrom_stray hspacing hhead] at h
      cases h
  | token kind text rest hm ih =>
      rw [Token.lexFrom_munch _ hm] at h ⊢
      have hrest := ih _ h
      -- the piece is the text of the token that comes of it
      generalize htext : String.ofList text = piece at *
      obtain rfl : text = piece.toList := by rw [← htext, String.toList_ofList]
      exact .token (t := ⟨kind, piece, _, _⟩) hm hrest

theorem Lexes.lexFrom_eq {cs : List Char} {ts : List Token} (h : Lexes c.toDefinition cs ts)
    (offset : Nat) : (Token.lexFrom c.symbols offset cs).stray = none ∧
      (Token.lexFrom c.symbols offset cs).tokens.map Token.outline = ts.map Token.outline := by
  induction h generalizing offset with
  | nil =>
      rw [Token.lexFrom]
      exact ⟨rfl, rfl⟩
  | spacing hs _ ih =>
      rw [Token.lexFrom_spacing hs]
      exact ih _
  | @token t rest ts hm _ ih =>
      obtain ⟨hstray, htokens⟩ := ih (offset + Text.unitsOf t.text.toList)
      rw [Token.lexFrom_munch offset hm]
      refine ⟨hstray, ?_⟩
      rw [List.map_cons, List.map_cons, htokens, String.ofList_toList]
      rfl

end

/-! ## What may come behind a longest lexeme -/

namespace Spells

variable {cs : List Char} {m : Nat} {e : Int}

theorem isDigit_or_point (h : Spells cs m e) : ∀ ch ∈ cs, isDigit ch = true ∨ ch = '.' := by
  cases h with
  | whole _ hds => exact fun ch hch => Or.inl (hds ch hch)
  | point _ hds _ hfs =>
      exact List.forall_mem_append.mpr ⟨fun ch hch => Or.inl (hds ch hch),
        List.forall_mem_cons.mpr ⟨Or.inr rfl, fun ch hch => Or.inl (hfs ch hch)⟩⟩

theorem exists_snoc (h : Spells cs m e) {ch : Char} (hd : isDigit ch = true) :
    ∃ m' e', Spells (cs ++ [ch]) m' e' := by
  have hone : ∀ d ∈ [ch], isDigit d = true := List.forall_mem_singleton.mpr hd
  cases h with
  | whole hne hds =>
      exact ⟨_, _, .whole (List.append_ne_nil_of_left_ne_nil hne _)
        (List.forall_mem_append.mpr ⟨hds, hone⟩)⟩
  | @point ds fs hne hds hne' hfs =>
      rw [List.append_assoc, List.cons_append]
      exact ⟨_, _, .point hne hds (List.append_ne_nil_of_left_ne_nil hne' _)
        (List.forall_mem_append.mpr ⟨hfs, hone⟩)⟩

end Spells

/-- No lexeme begins with a point. -/
theorem Lexeme.head_ne_point {c : Catalog} {kind : Token.Kind} {ch : Char} {rest : List Char}
    (h : Lexeme c.toDefinition kind (ch :: rest)) : ch ≠ '.' := by
  rintro rfl
  generalize hcs : '.' :: rest = cs at h
  cases h with
  | numeral hs =>
      obtain ⟨_, _, rfl, hd⟩ := hs.exists_cons
      cases hcs
      cases hd
  | name _ hall =>
      have := hall '.' (hcs ▸ List.mem_cons_self)
      rw [Text.isLetter_eq_false_of_lt (by decide)] at this
      cases this
  | symbol h =>
      exact ((isSymbolText_iff.mp (Catalog.isSymbolText_of_mem_uses h)).2 '.'
        (hcs ▸ List.mem_cons_self)).2.2.2 rfl

namespace Preset

variable {style : Style} {kind kind' : Token.Kind} {text : List Char} {ch : Char}

theorem length_of_mem_uses {s : Symbol} (h : s ∈ (catalog style).uses) :
    s.text.toList.length = 1 := by
  have hall : ∀ style, ∀ s ∈ (definition style).uses, s.text.toList.length = 1 := by
    intro style
    cases style <;> decide +kernel
  exact hall style s h

/-- What goes on, otherwise than with a point, goes on with no parenthesis and
might as well end behind one character more. -/
theorem lexeme_snoc {more : List Char} (h : Lexeme (catalog style).toDefinition kind text)
    (h' : Lexeme (catalog style).toDefinition kind' (text ++ ch :: more)) (hp : ch ≠ '.') :
    (ch ≠ '(' ∧ ch ≠ ')') ∧ Lexeme (catalog style).toDefinition kind (text ++ [ch]) := by
  have hch : ch ∈ text ++ ch :: more := List.mem_append_right _ List.mem_cons_self
  obtain ⟨first, tail, rfl, hstart⟩ := h.exists_cons
  have hstart' := h'.starts_of_prefix (List.prefix_refl _)
  have hdisjoint : isDigit first = true → Text.isLetter first = false := Text.isLetter_of_isDigit
  generalize htext : first :: tail = text at *
  generalize hcs : text ++ ch :: more = cs at h' hch
  cases h' with
  | numeral hs' =>
      cases h with
      | numeral hs =>
          have hd := (hs'.isDigit_or_point ch hch).resolve_right hp
          obtain ⟨m, e, hsnoc⟩ := hs.exists_snoc hd
          refine ⟨⟨?_, ?_⟩, .numeral hsnoc⟩
          · rintro rfl
            cases hd
          · rintro rfl
            cases hd
      | name _ _ => grind [Token.Kind.starts]
      | symbol _ => grind [Token.Kind.starts]
  | name _ hall =>
      cases h with
      | name hne hall' =>
          have hl := hall ch hch
          refine ⟨⟨?_, ?_⟩, .name (List.append_ne_nil_of_left_ne_nil hne _)
            (List.forall_mem_append.mpr ⟨hall', List.forall_mem_singleton.mpr hl⟩)⟩
          · rintro rfl
            rw [Text.isLetter_eq_false_of_lt (by decide)] at hl
            cases hl
          · rintro rfl
            rw [Text.isLetter_eq_false_of_lt (by decide)] at hl
            cases hl
      | numeral _ => grind [Token.Kind.starts]
      | symbol _ => grind [Token.Kind.starts]
  | symbol hmem =>
      -- a symbol has one character, and here there are two
      have hlength := length_of_mem_uses hmem
      rw [← hcs, ← htext, List.length_append, List.length_cons, List.length_cons] at hlength
      omega

/-- A symbol is the longest lexeme wherever it stands. -/
theorem munch_symbol {text : String} {role : Role} (h : ⟨text, role⟩ ∈ (catalog style).uses)
    (rest : List Char) :
    Munch (catalog style).toDefinition (.symbol role) text.toList rest where
  lexeme := .symbol h
  longest := by
    intro kind' text' h' hp
    have hlexeme : Lexeme (catalog style).toDefinition (.symbol role) text.toList := .symbol h
    obtain ⟨ch, tail, htext, hstart⟩ := hlexeme.exists_cons
    rw [htext, List.cons_append] at hp
    have hstart' := h'.starts_of_prefix hp
    have hdisjoint : isDigit ch = true → Text.isLetter ch = false := Text.isLetter_of_isDigit
    cases h' with
    | numeral _ => grind [Token.Kind.starts]
    | name _ _ => grind [Token.Kind.starts]
    | symbol h' => exact Nat.le_of_eq ((length_of_mem_uses h').trans (length_of_mem_uses h).symm)

end Preset

/-- `Replaces after before`: what begins with a parenthesis may come in place of
anything, and other things if they begin as before, and not with a point. -/
def Replaces (after before : List Char) : Prop :=
  ∀ ch more, after = ch :: more →
    ch = '(' ∨ ch = ')' ∨ ch ≠ '.' ∧ ∃ more', before = ch :: more'

/-- A longest lexeme stays the longest. -/
theorem Munch.replace {style : Style} {kind : Token.Kind} {text before after : List Char}
    (h : Munch (Preset.catalog style).toDefinition kind text before)
    (hr : Replaces after before) : Munch (Preset.catalog style).toDefinition kind text after where
  lexeme := h.lexeme
  longest := by
    intro kind' text' h' hp
    rcases List.prefix_or_prefix_of_prefix hp (List.prefix_append text after) with hle | ⟨more, rfl⟩
    · exact hle.length_le
    · cases more with
      | nil => exact Nat.le_of_eq (congrArg List.length (List.append_nil text))
      | cons ch more =>
          obtain ⟨tail, htail⟩ := hp
          rw [List.append_assoc] at htail
          rcases hr ch (more ++ tail) (List.append_cancel_left htail).symm with
            rfl | rfl | ⟨hpoint, before, rfl⟩
          · exact absurd rfl (Preset.lexeme_snoc h.lexeme h' (by decide)).1.1
          · exact absurd rfl (Preset.lexeme_snoc h.lexeme h' (by decide)).1.2
          · -- with the next character it was a lexeme before
            have hsnoc := (Preset.lexeme_snoc h.lexeme h' hpoint).2
            have hle := h.longest _ _ hsnoc ⟨before, by
              rw [List.append_assoc, List.singleton_append]⟩
            rw [List.length_append, List.length_singleton] at hle
            omega

/-! ## Putting parentheses in -/

/-- The characters with parentheses around each run and its operand, where the
tokens are those of the characters. -/
def Scan.encloseChars : Scan → List Token → List Char → List Char
  | _, [], cs => cs
  | s, t :: ts, cs =>
    cs.takeWhile Text.isSpacing ++ s.around t '(' ')' t.text.toList ++
      (s.next t).encloseChars ts ((cs.dropWhile Text.isSpacing).drop t.text.toList.length)

/-- A source with an opening parenthesis in front of every run of leading minus
signs, and the closing one behind the operand that the run applies to. -/
def Preset.enclose (source : String) : String :=
  String.ofList
    (Scan.start.encloseChars ((catalog .spreadsheet).lex source).tokens source.toList)

namespace Scan

variable {style : Style} (s : Scan)

theorem encloseChars_spacing {ch : Char} (h : Text.isSpacing ch = true) (ts : List Token)
    (cs : List Char) : s.encloseChars ts (ch :: cs) = ch :: s.encloseChars ts cs := by
  cases ts with
  | nil => rfl
  | cons t ts =>
      rw [encloseChars, encloseChars, List.takeWhile_cons_of_pos h, List.dropWhile_cons_of_pos h]
      rfl

theorem encloseChars_token {c : Catalog} {t : Token}
    (h : Lexeme c.toDefinition t.kind t.text.toList) (ts : List Token) (rest : List Char) :
    s.encloseChars (t :: ts) (t.text.toList ++ rest) =
      putIf (s.opens t) '(' ++ (t.text.toList ++
        (putIf (s.closes t) ')' ++ (s.next t).encloseChars ts rest)) := by
  obtain ⟨ch, tail, htext, -⟩ := h.exists_cons
  have hs : ¬ Text.isSpacing ch = true := by
    rw [h.isSpacing_eq_false ch (htext ▸ List.mem_cons_self)]
    decide
  rw [encloseChars, around, htext, List.cons_append, List.takeWhile_cons_of_neg hs,
    List.dropWhile_cons_of_neg hs, ← List.cons_append, List.drop_left]
  simp only [List.nil_append, List.append_assoc]

end Scan

section

variable {style : Style} {cs : List Char} {ts : List Token}

/-- What comes of a lexed text begins as the text, or with a parenthesis. -/
theorem Lexes.replaces {c : Catalog} (h : Lexes c.toDefinition cs ts) (s : Scan) :
    Replaces (s.encloseChars ts cs) cs := by
  intro ch more he
  cases h with
  | nil => cases he
  | spacing hs =>
      rw [s.encloseChars_spacing hs] at he
      cases he
      refine Or.inr (Or.inr ⟨?_, _, rfl⟩)
      rintro rfl
      cases hs
  | @token t rest ts hm _ =>
      rw [s.encloseChars_token hm.lexeme] at he
      cases ho : s.opens t with
      | true =>
          rw [ho] at he
          cases he
          exact Or.inl rfl
      | false =>
          rw [ho] at he
          obtain ⟨first, tail, htext, -⟩ := hm.lexeme.exists_cons
          have hfirst := (htext ▸ hm.lexeme).head_ne_point
          rw [htext] at he ⊢
          cases he
          exact Or.inr (Or.inr ⟨hfirst, _, rfl⟩)

/-- A symbol may be put in front of what is lexed. -/
theorem Lexes.insert {t : Token} {role : Role} {ch : Char}
    (h : Lexes (Preset.catalog style).toDefinition cs ts) (hk : t.kind = .symbol role)
    (hu : ⟨t.text, role⟩ ∈ (Preset.catalog style).uses) (htext : t.text.toList = [ch]) (b : Bool) :
    Lexes (Preset.catalog style).toDefinition (putIf b ch ++ cs) (putIf b t ++ ts) := by
  cases b with
  | false => exact h
  | true =>
      have hm := Preset.munch_symbol hu cs
      rw [← hk] at hm
      have hlexes := Lexes.token hm h
      rwa [htext] at hlexes

/-- The characters with the parentheses are lexed into the tokens with them. -/
theorem Lexes.enclose (h : Lexes (Preset.catalog style).toDefinition cs ts) (s : Scan) :
    Lexes (Preset.catalog style).toDefinition (s.encloseChars ts cs) (s.enclose ts) := by
  induction h generalizing s with
  | nil => exact .nil
  | spacing hs _ ih =>
      rw [s.encloseChars_spacing hs]
      exact .spacing hs (ih s)
  | @token t rest ts hm hrest ih =>
      have hbehind : Replaces (putIf (s.closes t) ')' ++ (s.next t).encloseChars ts rest) rest := by
        cases s.closes t with
        | false => exact hrest.replaces (s.next t)
        | true =>
            intro ch more he
            cases he
            exact Or.inr (Or.inl rfl)
      have hopening : ⟨"(", .opening⟩ ∈ (Preset.catalog style).uses := by
        cases style <;> decide +kernel
      have hclosing : ⟨")", .closing⟩ ∈ (Preset.catalog style).uses := by
        cases style <;> decide +kernel
      have hclosed :=
        (ih (s.next t)).insert (t := Preset.closingToken) rfl hclosing rfl (s.closes t)
      rw [s.encloseChars_token hm.lexeme, s.enclose_cons]
      exact (Lexes.token (hm.replace hbehind) hclosed).insert (t := Preset.openingToken) rfl
        hopening rfl (s.opens t)

end

/-- Where every character of a source belongs to a token or is spacing, so it is
with the parentheses, and the tokens are those with parentheses put in. -/
theorem Preset.lex_enclose {source : String}
    (h : ((catalog .spreadsheet).lex source).stray = none) :
    ((catalog .standard).lex (enclose source)).stray = none ∧
      ((catalog .standard).lex (enclose source)).tokens.map Token.outline =
        (Scan.start.enclose ((catalog .spreadsheet).lex source).tokens).map Token.outline := by
  have hlexes := (lexes_lexFrom 0 source.toList h).enclose Scan.start
  have hlex := hlexes.lexFrom_eq 0
  rw [Catalog.lex, enclose, String.toList_ofList]
  exact hlex

example : Preset.enclose "2^--3 * -sin(-pi)" = "2^(--3) * (-sin((-pi)))" := by decide +kernel

end Reckoner
