/-
# Where tokens stand

No character of a token is spacing, and every break is.  So a token lies within
one line of its source, and so does the character that starts no token: neither
touches the offset inside a break.  The snippet for a token is that line, with
the carets under the token and nothing else (`snippet_underlines`).
-/
import Reckoner.Catalog.Preset
import Reckoner.Proofs.Text.Position

namespace Reckoner

theorem Text.isBreak_of_isSpacing {ch : Char} (h : isSpacing ch = false) : isBreak ch = false := by
  rw [← Bool.not_eq_true] at h ⊢
  refine fun hbreak => h ?_
  simp only [isBreak, Bool.or_eq_true, decide_eq_true_eq] at hbreak
  rcases hbreak with rfl | rfl <;> decide

variable {c : Catalog} {source : String} {t : Token}

/-- Where a token of a source stands. -/
theorem Catalog.exists_at_of_mem_lex (h : t ∈ (c.lex source).tokens) :
    ∃ i rest, Text.At 0 source.toList i (t.text.toList ++ rest) ∧ t.start = ↑i ∧
      t.stop = ↑(i + Text.units t.text) ∧ t.text.toList ≠ [] ∧
      ∀ ch ∈ t.text.toList, Text.isBreak ch = false := by
  obtain ⟨i, rest, hat, hstart, hstop, hm⟩ :=
    ((maximalMunch_iff c 0 source.toList _).mpr rfl).munched t h
  exact ⟨i, rest, hat, hstart, hstop, hm.lexeme.ne_nil,
    fun ch hch => Text.isBreak_of_isSpacing (hm.lexeme.isSpacing_eq_false ch hch)⟩

/-- Where a stray character of a source stands. -/
theorem Catalog.exists_at_of_stray {s : Stray} (h : (c.lex source).stray = some s) :
    ∃ rest, Text.At 0 source.toList s.offset ([s.char] ++ rest) ∧ Text.isBreak s.char = false ∧
      ∀ t ∈ (c.lex source).tokens, t.stop ≤ s.offset := by
  obtain ⟨hbehind, hspacing, rest, hat, -⟩ :=
    ((maximalMunch_iff c 0 source.toList _).mpr rfl).stray s h
  exact ⟨rest, hat, Text.isBreak_of_isSpacing hspacing, hbehind⟩

/-- The snippet for a token is a line of the source, with as many carets below as the token has
units, and they stand just under it: what is in front of the token in the line (`lead`) is as wide
as the spaces in front of the carets.  For an offset and a length that belong to no token there is
still a caret, and no caret stands behind the line but one just behind its end, if it is the only
one. -/
theorem snippet_underlines (source message : String) :
    (∀ (c : Catalog) (t : Token), t ∈ (c.lex source).tokens →
      ∃ k lead tail,
        (Text.linesOf source.toList)[k]? = some (lead ++ t.text.toList ++ tail) ∧
        t.start = ↑(Text.lineStart source.toList k + Text.unitsOf lead) ∧
        Text.snippet source (.units t.start) (.units t.length) message =
          Text.underlined (lead ++ t.text.toList ++ tail) (Text.unitsOf lead) t.length message) ∧
    ∀ index length : Int, ∃ line k n,
      (Text.linesOf source.toList)[(Text.position source (.units index)).line - 1]? = some line ∧
      Text.snippet source (.units index) (.units length) message =
        Text.underlined line k n message ∧
      0 < n ∧ (k + n ≤ Text.unitsOf line ∨ k = Text.unitsOf line ∧ n = 1) := by
  refine ⟨fun c t ht => ?_, Text.snippet_within source message⟩
  obtain ⟨i, rest, hat, hstart, -, hne, hb⟩ := Catalog.exists_at_of_mem_lex ht
  obtain ⟨k, start, lead, tail, hrow, hi, hsnippet⟩ := Text.underlined_of_at hat hne hb message
  have hline := Text.start_of_rows hrow
  rw [Nat.zero_add] at hline
  refine ⟨k, lead, tail, ?_, ?_, ?_⟩
  · rw [← Text.map_line_rows 0, List.getElem?_map, hrow, Option.map_some]
  · rw [hstart, hi, ← hline]
  · rw [hstart]
    exact hsnippet

/-- The divisor is a token in the second line, behind a break of two characters. -/
theorem divisor_underlined :
    let source := "2\r\n+ 10/0"
    let t : Token := ⟨.literal, "10", 5, 7⟩
    t ∈ ((Preset.catalog .standard).lex source).tokens ∧
      ∃ k lead tail,
        (Text.linesOf source.toList)[k]? = some (lead ++ t.text.toList ++ tail) ∧
        t.start = ↑(Text.lineStart source.toList k + Text.unitsOf lead) ∧
        Text.snippet source (.units t.start) (.units t.length) "here" =
          Text.underlined (lead ++ t.text.toList ++ tail) (Text.unitsOf lead) t.length "here" := by
  intro source t
  have ht : t ∈ ((Preset.catalog .standard).lex source).tokens := by decide +kernel
  exact ⟨ht, (snippet_underlines source "here").1 _ t ht⟩

example : Text.snippet "2\r\n+ 10/0" (.units 5) (.units 2) "here" = "+ 10/0\n  ^^ --- here" := by
  decide +kernel

end Reckoner
