/-
# Lexemes with spaces between them

No lexeme holds spacing, so the longest one in front of spacing, or at the end,
is the whole of what stands there.  A source that is put together from lexemes
with single spaces between them is therefore lexed into these lexemes again.
-/
import Reckoner.Proofs.Token.MaximalMunch

namespace Reckoner

variable {c : Catalog}

/-- A lexeme does not reach over spacing. -/
theorem Lexeme.prefix_of_spacing {kind : Token.Kind} {text cs more : List Char} {ch : Char}
    (h : Lexeme c.toDefinition kind text) (hch : Text.isSpacing ch = true)
    (hp : text <+: cs ++ ch :: more) : text <+: cs := by
  rcases List.prefix_or_prefix_of_prefix hp (List.prefix_append cs (ch :: more)) with hle | hge
  · exact hle
  · -- what a longer lexeme has behind the characters starts with the spacing
    obtain ⟨beyond, rfl⟩ := hge
    cases beyond with
    | nil => exact (List.append_nil cs).symm ▸ List.prefix_refl cs
    | cons ch' beyond =>
        obtain ⟨rfl, -⟩ := List.cons_prefix_cons.mp ((List.prefix_append_right_inj cs).mp hp)
        rw [h.isSpacing_eq_false ch' (List.mem_append_right _ List.mem_cons_self)] at hch
        cases hch

/-- A lexeme that only spacing or nothing follows is the longest. -/
theorem Lexeme.munch {kind : Token.Kind} {text : List Char}
    (h : Lexeme c.toDefinition kind text) (rest : List Char)
    (hrest : ∀ ch rest', rest = ch :: rest' → Text.isSpacing ch = true) :
    Munch c.toDefinition kind text rest where
  lexeme := h
  longest := by
    intro kind' text' h' hp
    cases rest with
    | nil => exact (List.append_nil text ▸ hp).length_le
    | cons ch rest' => exact (h'.prefix_of_spacing (hrest ch rest' rfl) hp).length_le

/-- A text with a kind that it may be a token of. -/
abbrev Piece := Token.Kind × String

/-- Lexemes with single spaces between them are the tokens that they are lexed into. -/
theorem Token.lexFrom_intercalate (offset : Nat) (pieces : List Piece)
    (h : ∀ p ∈ pieces, Lexeme c.toDefinition p.1 p.2.toList) :
    (lexFrom c.symbols offset ([' '].intercalate (pieces.map (·.2.toList)))).stray = none ∧
      (lexFrom c.symbols offset ([' '].intercalate (pieces.map (·.2.toList)))).tokens.map
        (fun t => (t.kind, t.text)) = pieces := by
  induction pieces generalizing offset with
  | nil =>
      rw [List.map_nil, List.intercalate_nil, lexFrom]
      exact ⟨rfl, rfl⟩
  | cons p pieces ih =>
      obtain ⟨kind, text⟩ := p
      obtain ⟨hp, hpieces⟩ := List.forall_mem_cons.mp h
      cases pieces with
      | nil =>
          have hlex := lexFrom_munch offset (hp.munch [] fun _ _ h => by cases h)
          rw [List.append_nil] at hlex
          rw [List.map_cons, List.map_nil, List.intercalate_singleton, hlex, lexFrom]
          simp only [List.map_cons, List.map_nil, String.ofList_toList, and_self]
      | cons q pieces =>
          have hm := hp.munch (' ' :: [' '].intercalate ((q :: pieces).map (·.2.toList)))
            fun ch _ hch => by
              cases hch
              decide
          obtain ⟨hstray, htokens⟩ := ih (offset + Text.unitsOf text.toList + Text.charUnits ' ')
            hpieces
          have hsplit : [' '].intercalate (((kind, text) :: q :: pieces).map (·.2.toList)) =
              text.toList ++ ' ' :: [' '].intercalate ((q :: pieces).map (·.2.toList)) := by
            simp only [List.map_cons, List.intercalate_cons_cons, List.append_assoc,
              List.singleton_append]
          rw [hsplit, lexFrom_munch _ hm, lexFrom_spacing (by decide)]
          refine ⟨hstray, ?_⟩
          simp only [List.map_cons, String.ofList_toList] at htokens ⊢
          rw [htokens]

theorem Catalog.lex_intercalate (c : Catalog) (pieces : List Piece)
    (h : ∀ p ∈ pieces, Lexeme c.toDefinition p.1 p.2.toList) :
    (c.lex (" ".intercalate (pieces.map (·.2)))).stray = none ∧
      (c.lex (" ".intercalate (pieces.map (·.2)))).tokens.map (fun t => (t.kind, t.text)) =
        pieces := by
  have hsource : (" ".intercalate (pieces.map (·.2))).toList =
      [' '].intercalate (pieces.map (·.2.toList)) := by
    rw [String.toList_intercalate, List.map_map]
    rfl
  rw [lex, hsource]
  exact Token.lexFrom_intercalate 0 pieces h

end Reckoner
