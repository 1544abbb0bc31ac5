/-
# Sources with spacing between them

Spacing separates: what stands in front of it is lexed as if the source ended
there, and what stands behind it as if the source began there.

    `a` comes to its end     the tokens of `a`, then those of `b`, which stand
                             further on by the length of what is in front
    `a` does not             the tokens of `a`, up to the same character

No lexeme holds spacing, so a lexeme that is the longest in `a` is the longest
in `a`, spacing and `b` (`Munch.before_spacing`), and where none starts in `a`
none starts there (`head?_before_spacing`).  This is why `1` and `5` never
become one numeral, nor `<` and `=` one symbol, across a space.
-/
import Reckoner.Catalog.Preset
import Reckoner.Proofs.Token.Spacing

namespace Reckoner

/-- The same token, `k` units further on. -/
def Token.moved (k : Nat) (t : Token) : Token :=
  { t with start := t.start + k, stop := t.stop + k }

/-- The same character, `k` units further on. -/
def Stray.moved (k : Nat) (s : Stray) : Stray := { s with offset := s.offset + k }

namespace Lexing

/-- The same lexing, `k` units further on. -/
def moved (k : Nat) (l : Lexing) : Lexing :=
  ⟨l.tokens.map (·.moved k), l.stray.map (·.moved k)⟩

/-- A lexing and, if it came to its end, another one behind it. -/
def followedBy (l l' : Lexing) : Lexing :=
  match l.stray with
  | some _ => l
  | none => ⟨l.tokens ++ l'.tokens, l'.stray⟩

theorem followedBy_of_none {l : Lexing} (h : l.stray = none) (l' : Lexing) :
    l.followedBy l' = ⟨l.tokens ++ l'.tokens, l'.stray⟩ := by
  rw [followedBy, h]

theorem followedBy_of_some {l : Lexing} {s : Stray} (h : l.stray = some s) (l' : Lexing) :
    l.followedBy l' = l := by
  rw [followedBy, h]

theorem cons_followedBy (t : Token) (l l' : Lexing) :
    followedBy ⟨t :: l.tokens, l.stray⟩ l' =
      ⟨t :: (l.followedBy l').tokens, (l.followedBy l').stray⟩ := by
  obtain ⟨tokens, stray⟩ := l
  cases stray with
  | none => rfl
  | some s => rfl

end Lexing

section

variable {c : Catalog} {ch : Char}

/-! ## In front of spacing -/

theorem Munch.before_spacing {kind : Token.Kind} {text rest : List Char}
    (h : Munch c.toDefinition kind text rest) (hch : Text.isSpacing ch = true)
    (more : List Char) : Munch c.toDefinition kind text (rest ++ ch :: more) where
  lexeme := h.lexeme
  longest kind' text' h' hp :=
    h.longest kind' text' h' (h'.prefix_of_spacing hch (List.append_assoc .. ▸ hp))

namespace Token

theorem head?_before_spacing {first : Char} {cs : List Char}
    (h : head? c.symbols (first :: cs) = none) (hch : Text.isSpacing ch = true)
    (more : List Char) : head? c.symbols (first :: (cs ++ ch :: more)) = none := by
  obtain ⟨hdigit, hletter, hsymbol⟩ := head?_eq_none.mp h
  refine head?_eq_none.mpr ⟨hdigit, hletter, fun s hs hp => hsymbol s hs ?_⟩
  exact (Lexeme.symbol hs).prefix_of_spacing hch hp

/-- Characters in front of spacing are lexed as they are alone. -/
theorem lexFrom_before_spacing (hch : Text.isSpacing ch = true) (more : List Char) (offset : Nat)
    (cs : List Char) :
    lexFrom c.symbols offset (cs ++ ch :: more) =
      (lexFrom c.symbols offset cs).followedBy
        (lexFrom c.symbols (offset + Text.unitsOf cs) (ch :: more)) := by
  induction cs using lex_induction c generalizing offset with
  | nil =>
      rw [List.nil_append, Text.unitsOf, Nat.add_zero, lexFrom.eq_def c.symbols offset []]
      rfl
  | spacing first rest hfirst ih =>
      rw [List.cons_append, lexFrom_spacing hfirst, lexFrom_spacing hfirst, ih, Text.unitsOf,
        Nat.add_assoc]
  | token kind text rest hm ih =>
      rw [List.append_assoc, lexFrom_munch offset (hm.before_spacing hch more),
        lexFrom_munch offset hm, Text.unitsOf_append, ← Nat.add_assoc, Lexing.cons_followedBy, ih]
  | stray first rest hfirst hhead =>
      rw [List.cons_append, lexFrom_stray hfirst (head?_before_spacing hhead hch more),
        lexFrom_stray hfirst hhead]
      rfl

/-! ## Behind spacing -/

theorem lexFrom_behind_spacing {w : List Char} (hw : ∀ ch ∈ w, Text.isSpacing ch = true)
    (offset : Nat) (cs : List Char) :
    lexFrom c.symbols offset (w ++ cs) = lexFrom c.symbols (offset + Text.unitsOf w) cs := by
  induction w generalizing offset with
  | nil => rfl
  | cons ch w ih =>
      obtain ⟨hch, hw⟩ := List.forall_mem_cons.mp hw
      rw [List.cons_append, lexFrom_spacing hch, ih hw, Text.unitsOf, Nat.add_assoc]

/-- Where characters stand changes nothing but the places of their tokens. -/
theorem lexFrom_moved (k offset : Nat) (cs : List Char) :
    lexFrom c.symbols (k + offset) cs = (lexFrom c.symbols offset cs).moved k := by
  induction cs using lex_induction c generalizing offset with
  | nil => simp only [lexFrom, Lexing.moved, List.map_nil, Option.map_none]
  | spacing first rest hfirst ih =>
      rw [lexFrom_spacing hfirst, lexFrom_spacing hfirst, Nat.add_assoc, ih]
  | token kind text rest hm ih =>
      rw [lexFrom_munch _ hm, lexFrom_munch _ hm, Nat.add_assoc, ih]
      simp only [Lexing.moved, List.map_cons, moved, Lexing.mk.injEq, List.cons.injEq,
        Token.mk.injEq, true_and, and_true]
      omega
  | stray first rest hfirst hhead =>
      rw [lexFrom_stray hfirst hhead, lexFrom_stray hfirst hhead]
      simp only [Lexing.moved, List.map_nil, Option.map_some, Stray.moved, Nat.add_comm]

end Token

theorem Catalog.lex_separated (c : Catalog) {w : String} (hne : w ≠ "")
    (hw : ∀ ch ∈ w.toList, Text.isSpacing ch = true) (a b : String) :
    c.lex (a ++ w ++ b) = (c.lex a).followedBy ((c.lex b).moved (Text.units (a ++ w))) := by
  obtain ⟨ch, rest, hcs⟩ :=
    List.exists_cons_of_ne_nil fun hnil => hne (String.toList_eq_nil_iff.mp hnil)
  have hsource : (a ++ w ++ b).toList = a.toList ++ ch :: (rest ++ b.toList) := by
    rw [String.toList_append, String.toList_append, hcs, List.append_assoc, List.cons_append]
  have hbehind : Token.lexFrom c.symbols (0 + Text.unitsOf a.toList) (ch :: (rest ++ b.toList)) =
      (c.lex b).moved (Text.units (a ++ w)) := by
    rw [← List.cons_append, ← hcs, Token.lexFrom_behind_spacing hw, Nat.zero_add,
      ← Text.unitsOf_append, ← String.toList_append]
    exact Token.lexFrom_moved (Text.units (a ++ w)) 0 b.toList
  rw [lex, hsource, Token.lexFrom_before_spacing (hw ch (hcs ▸ List.mem_cons_self)), hbehind]
  rfl

end

/-- Spacing between two sources changes the tokens of neither.  If the first one
is lexed to its end, its tokens are followed by those of the second, further on by
the length of what is in front, and lexing stops if and where it stops in the
second; otherwise it stops where it stops in the first, with the same tokens.  So
the texts of the tokens of any source, with single spaces between them, are lexed
into tokens of the same kinds and texts. -/
theorem spacing_separates (c : Catalog) :
    (∀ a w b : String, w ≠ "" → (∀ ch ∈ w.toList, Text.isSpacing ch = true) →
      ((c.lex a).stray = none →
        (c.lex (a ++ w ++ b)).tokens =
            (c.lex a).tokens ++ (c.lex b).tokens.map (·.moved (Text.units (a ++ w))) ∧
          (c.lex (a ++ w ++ b)).stray = (c.lex b).stray.map (·.moved (Text.units (a ++ w)))) ∧
      ∀ s, (c.lex a).stray = some s →
        (c.lex (a ++ w ++ b)).tokens = (c.lex a).tokens ∧
          (c.lex (a ++ w ++ b)).stray = some s) ∧
    ∀ source, (c.lex (" ".intercalate ((c.lex source).tokens.map (·.text)))).stray = none ∧
      (c.lex (" ".intercalate ((c.lex source).tokens.map (·.text)))).tokens.map
          (fun t => (t.kind, t.text)) =
        (c.lex source).tokens.map fun t => (t.kind, t.text) := by
  refine ⟨fun a w b hne hw => ?_, fun source => ?_⟩
  · rw [c.lex_separated hne hw a b]
    refine ⟨fun hnone => ?_, fun s hs => ?_⟩
    · rw [Lexing.followedBy_of_none hnone]
      exact ⟨rfl, rfl⟩
    · rw [Lexing.followedBy_of_some hs]
      exact ⟨rfl, hs⟩
  · have hpieces : ∀ p ∈ (c.lex source).tokens.map (fun t => (t.kind, t.text)),
        Lexeme c.toDefinition p.1 p.2.toList := by
      intro p hp
      obtain ⟨t, ht, rfl⟩ := List.mem_map.mp hp
      exact Catalog.lexeme_of_mem_lex ht
    have hjoined : (" ".intercalate ((c.lex source).tokens.map (·.text))).toList =
        [' '].intercalate
          (((c.lex source).tokens.map (fun t => (t.kind, t.text))).map (·.2.toList)) := by
      rw [String.toList_intercalate, List.map_map, List.map_map]
      rfl
    have hlex := Token.lexFrom_intercalate 0 _ hpieces
    rw [← hjoined] at hlex
    exact hlex

theorem productAndStray_separated :
    let c := Preset.catalog .standard
    ((c.lex "2*max").stray = none ∧
      (c.lex "2*max \n(1)#").tokens = (c.lex "2*max").tokens ++
        (c.lex "(1)#").tokens.map (·.moved 7) ∧
      (c.lex "2*max \n(1)#").stray = some ⟨'#', 10⟩) ∧
    (c.lex "(1)# 2").tokens = (c.lex "(1)#").tokens ∧
      (c.lex "(1)# 2").stray = some ⟨'#', 3⟩ := by
  intro c
  have hfirst : (c.lex "2*max").stray = none := by decide +kernel
  have hsecond : (c.lex "(1)#").stray = some ⟨'#', 3⟩ := by decide +kernel
  have hbreak := List.all_eq_true.mp (show " \n".toList.all Text.isSpacing = true by decide)
  have hspace := List.all_eq_true.mp (show " ".toList.all Text.isSpacing = true by decide)
  obtain ⟨htokens, hstray⟩ :=
    ((spacing_separates c).1 "2*max" " \n" "(1)#" (by decide) hbreak).1 hfirst
  have hbroken := ((spacing_separates c).1 "(1)#" " " "2" (by decide) hspace).2 _ hsecond
  refine ⟨⟨hfirst, htokens, hstray.trans ?_⟩, hbroken⟩
  rw [hsecond]
  rfl

end Reckoner
