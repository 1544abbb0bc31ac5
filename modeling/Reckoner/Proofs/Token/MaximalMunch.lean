/-
# Lexing is the only maximal munch

`MaximalMunch` says of tokens, and of the character that stopped the lexing,
what a reader of a source can check without running the lexer: where the tokens
stand, that each is the longest lexeme there, and that the rest is spacing.
The tokens of the lexer satisfy it, and no others do:

    MaximalMunch c 0 source l  ↔  l = c.lex source

Both directions go by the four ways in which characters can begin (nothing,
spacing, a lexeme, something else).  In each, one lemma tells what a maximal
munch of the whole is, given one of the rest behind the piece in front, and
one lemma tells the same of the lexer.
-/
import Reckoner.Evaluation.Run
import Reckoner.Proofs.Token.Lexeme

namespace Reckoner

/-- `At offset cs i tail`: where `cs` follow the offset `offset`, `tail` follow
the offset `i`. -/
def Text.At (offset : Nat) (cs : List Char) (i : Nat) (tail : List Char) : Prop :=
  ∃ before, cs = before ++ tail ∧ i = offset + unitsOf before

/-- A token is what stands between its offsets, and the longest lexeme there. -/
def Token.Munched (d : Definition) (offset : Nat) (cs : List Char) (t : Token) : Prop :=
  ∃ i rest, Text.At offset cs i (t.text.toList ++ rest) ∧ t.start = ↑i ∧
    t.stop = ↑(i + Text.units t.text) ∧ Munch d t.kind t.text.toList rest

/-- `MaximalMunch d offset cs l`: `l` is a lexing of the characters that follow
an offset. -/
structure MaximalMunch (d : Definition) (offset : Nat) (cs : List Char) (l : Lexing) : Prop where
  /-- The tokens come in order, and none overlaps another. -/
  ordered : l.tokens.Pairwise fun t u => t.stop ≤ u.start
  /-- Each is the longest lexeme at its place. -/
  munched : ∀ t ∈ l.tokens, t.Munched d offset cs
  /-- Up to where the lexing stopped, all that lies in no token is spacing. -/
  spaced : ∀ i ch rest, Text.At offset cs i (ch :: rest) →
    (∀ s, l.stray = some s → i < s.offset) →
    (∀ t ∈ l.tokens, ¬ (t.start ≤ i ∧ i < t.stop)) → Text.isSpacing ch = true
  /-- It stopped behind the tokens, at a character that is no spacing and that
  no lexeme starts with. -/
  stray : ∀ s, l.stray = some s → (∀ t ∈ l.tokens, t.stop ≤ s.offset) ∧
    Text.isSpacing s.char = false ∧ ∃ rest, Text.At offset cs s.offset (s.char :: rest) ∧
      isDigit s.char = false ∧ Text.isLetter s.char = false ∧
        ∀ u ∈ d.uses, ¬ u.text.toList <+: s.char :: rest

/-! ## Places -/

namespace Text

variable {offset i : Nat} {cs text rest tail : List Char}

theorem At.start (offset : Nat) (cs : List Char) : At offset cs offset cs :=
  ⟨[], rfl, rfl⟩

theorem At.le (h : At offset cs i tail) : offset ≤ i := by
  obtain ⟨before, -, rfl⟩ := h
  exact Nat.le_add_right _ _

theorem unitsOf_pos (h : cs ≠ []) : 0 < unitsOf cs := by
  obtain ⟨ch, rest, rfl⟩ := List.exists_cons_of_ne_nil h
  exact Nat.lt_of_lt_of_le (charUnits_pos ch) (Nat.le_add_right _ _)

theorem At.eq_start (h : At offset cs i tail) (hi : i ≤ offset) : i = offset ∧ tail = cs := by
  obtain ⟨before, rfl, rfl⟩ := h
  cases before with
  | nil => exact ⟨rfl, rfl⟩
  | cons ch before =>
      have := unitsOf_pos (List.cons_ne_nil ch before)
      omega

/-- What follows an offset starts with the first character, or lies behind it. -/
theorem At.cons {ch ch' : Char} (h : At offset (ch :: rest) i (ch' :: tail)) :
    ch' = ch ∨ offset + charUnits ch ≤ i := by
  obtain ⟨before, hsplit, rfl⟩ := h
  cases before with
  | nil => exact Or.inl (List.cons.inj hsplit).1.symm
  | cons _ before =>
      cases hsplit
      rw [unitsOf]
      omega

theorem At.behind (h : At (offset + unitsOf text) rest i tail) :
    At offset (text ++ rest) i tail := by
  obtain ⟨before, rfl, rfl⟩ := h
  exact ⟨text ++ before, (List.append_assoc _ _ _).symm, by rw [unitsOf_append, Nat.add_assoc]⟩

theorem At.drop (h : At offset (text ++ rest) i tail) (hi : offset + unitsOf text ≤ i) :
    At (offset + unitsOf text) rest i tail := by
  obtain ⟨before, hsplit, rfl⟩ := h
  rcases List.append_eq_append_iff.mp hsplit with ⟨more, rfl, rfl⟩ | ⟨more, rfl, rfl⟩
  · exact ⟨more, rfl, by rw [unitsOf_append, Nat.add_assoc]⟩
  · rw [unitsOf_append] at hi ⊢
    cases more with
    | nil => exact ⟨[], rfl, by simp only [unitsOf, Nat.add_zero]⟩
    | cons ch more =>
        have := unitsOf_pos (List.cons_ne_nil ch more)
        omega

end Text

section

variable {d : Definition} {offset : Nat} {text rest : List Char} {t : Token}

theorem Token.Munched.behind (h : t.Munched d (offset + Text.unitsOf text) rest) :
    t.Munched d offset (text ++ rest) := by
  obtain ⟨i, rest', hat, h⟩ := h
  exact ⟨i, rest', hat.behind, h⟩

theorem Token.Munched.drop (h : t.Munched d offset (text ++ rest))
    (hi : ↑(offset + Text.unitsOf text) ≤ t.start) :
    t.Munched d (offset + Text.unitsOf text) rest := by
  obtain ⟨i, rest', hat, hstart, h⟩ := h
  exact ⟨i, rest', hat.drop (by omega), hstart, h⟩

theorem Token.Munched.le_start (h : t.Munched d offset text) : ↑offset ≤ t.start := by
  obtain ⟨i, rest', hat, hstart, h⟩ := h
  have := hat.le
  omega

end

/-! ## A piece in front, and the rest -/

namespace MaximalMunch

variable {c : Catalog} {offset : Nat} {text rest : List Char} {ts : List Token}
  {stray : Option Stray} {kind : Token.Kind} {ch : Char} {l : Lexing}

/-- Tokens of a piece in front come before those of the rest. -/
theorem extend (text : List Char) (front : List Token)
    (h : MaximalMunch c.toDefinition (offset + Text.unitsOf text) rest ⟨ts, stray⟩)
    (hordered : front.Pairwise fun t u => t.stop ≤ u.start)
    (hmunched : ∀ t ∈ front, t.Munched c.toDefinition offset (text ++ rest) ∧
      t.stop ≤ ↑(offset + Text.unitsOf text))
    (hspaced : ∀ i ch rest', Text.At offset (text ++ rest) i (ch :: rest') →
      i < offset + Text.unitsOf text → (∀ t ∈ front, ¬ (t.start ≤ i ∧ i < t.stop)) →
      Text.isSpacing ch = true) :
    MaximalMunch c.toDefinition offset (text ++ rest) ⟨front ++ ts, stray⟩ where
  ordered := by
    refine List.pairwise_append.mpr ⟨hordered, h.ordered, fun t ht u hu => ?_⟩
    exact Int.le_trans (hmunched t ht).2 (h.munched u hu).le_start
  munched := List.forall_mem_append.mpr
    ⟨fun t ht => (hmunched t ht).1, fun t ht => (h.munched t ht).behind⟩
  spaced i ch rest' hat hbefore hcovered := by
    obtain ⟨hfront, hts⟩ := List.forall_mem_append.mp hcovered
    rcases Nat.lt_or_ge i (offset + Text.unitsOf text) with hi | hi
    · exact hspaced i ch rest' hat hi hfront
    · exact h.spaced i ch rest' (hat.drop hi) hbefore hts
  stray s hs := by
    obtain ⟨hts, hspacing, rest', hat, hno⟩ := h.stray s hs
    refine ⟨List.forall_mem_append.mpr ⟨fun t ht => ?_, hts⟩, hspacing, rest', hat.behind, hno⟩
    have := hat.le
    have := (hmunched t ht).2
    omega

/-- Behind a piece in front come the tokens of the rest. -/
theorem drop (text : List Char) (front : List Token)
    (h : MaximalMunch c.toDefinition offset (text ++ rest) ⟨front ++ ts, stray⟩)
    (hfront : ∀ t ∈ front, t.stop ≤ ↑(offset + Text.unitsOf text))
    (hts : ∀ t ∈ ts, ↑(offset + Text.unitsOf text) ≤ t.start)
    (hstray : ∀ s, stray = some s → offset + Text.unitsOf text ≤ s.offset) :
    MaximalMunch c.toDefinition (offset + Text.unitsOf text) rest ⟨ts, stray⟩ where
  ordered := (List.pairwise_append.mp h.ordered).2.1
  munched t ht := (h.munched t (List.mem_append_right _ ht)).drop (hts t ht)
  spaced i ch rest' hat hbefore hcovered := by
    refine h.spaced i ch rest' hat.behind hbefore
      (List.forall_mem_append.mpr ⟨fun t ht => ?_, hcovered⟩)
    have := hat.le
    have := hfront t ht
    omega
  stray s hs := by
    obtain ⟨hall, hspacing, rest', hat, hno⟩ := h.stray s hs
    exact ⟨fun t ht => hall t (List.mem_append_right _ ht), hspacing, rest',
      hat.drop (hstray s hs), hno⟩

theorem nil_iff : MaximalMunch c.toDefinition offset [] l ↔ l = ⟨[], none⟩ := by
  constructor
  · intro h
    obtain ⟨tokens, stray⟩ := l
    have htokens : tokens = [] := by
      refine List.eq_nil_iff_forall_not_mem.mpr fun t ht => ?_
      obtain ⟨i, rest, ⟨before, hnil, -⟩, -, -, hm⟩ := h.munched t ht
      exact hm.lexeme.ne_nil (List.append_eq_nil_iff.mp (List.append_eq_nil_iff.mp hnil.symm).2).1
    cases stray with
    | none => rw [htokens]
    | some s =>
        obtain ⟨-, -, rest, ⟨before, hnil, -⟩, -⟩ := h.stray s rfl
        cases (List.append_eq_nil_iff.mp hnil.symm).2
  · rintro rfl
    refine ⟨.nil, nofun, fun i ch rest hat _ _ => ?_, nofun⟩
    obtain ⟨before, hnil, -⟩ := hat
    cases (List.append_eq_nil_iff.mp hnil.symm).2

theorem spacing_iff (hch : Text.isSpacing ch = true) :
    MaximalMunch c.toDefinition offset (ch :: rest) l ↔
      MaximalMunch c.toDefinition (offset + Text.charUnits ch) rest l := by
  have hunits : Text.unitsOf [ch] = Text.charUnits ch := rfl
  -- what is no spacing stands behind the character
  have hbehind : ∀ {i ch' rest'}, Text.At offset (ch :: rest) i (ch' :: rest') →
      Text.isSpacing ch' = false → offset + Text.charUnits ch ≤ i := by
    intro i ch' rest' hat hch'
    refine hat.cons.resolve_left ?_
    rintro rfl
    rw [hch] at hch'
    cases hch'
  rw [← hunits] at hbehind ⊢
  constructor
  · intro h
    refine drop [ch] [] h nofun (fun t ht => ?_) fun s hs => ?_
    · obtain ⟨i, rest', hat, hstart, -, hm⟩ := h.munched t ht
      obtain ⟨ch', text', htext, -⟩ := hm.lexeme.exists_cons
      have hch' := hm.lexeme.isSpacing_eq_false ch' (htext ▸ List.mem_cons_self)
      rw [htext] at hat
      have := hbehind hat hch'
      omega
    · obtain ⟨-, hspacing, rest', hat, -⟩ := h.stray s hs
      exact hbehind hat hspacing
  · intro h
    refine extend [ch] [] h .nil nofun fun i ch' rest' hat hi _ => ?_
    rw [← Bool.not_eq_false]
    intro hch'
    have := hbehind hat hch'
    omega

/-- A token that starts where a longest lexeme stands is the token of it. -/
theorem eq_of_start {t : Token} (hm : Munch c.toDefinition kind text rest)
    (ht : t.Munched c.toDefinition offset (text ++ rest)) (hle : t.start ≤ ↑offset) :
    t = ⟨kind, String.ofList text, offset, ↑(offset + Text.unitsOf text)⟩ := by
  obtain ⟨i, rest', hat, hi, hstop, hmt⟩ := ht
  obtain ⟨rfl, hsplit⟩ := hat.eq_start (by omega)
  have hlength : t.text.toList.length = text.length :=
    Nat.le_antisymm (hm.longest _ _ hmt.lexeme (hsplit ▸ List.prefix_append _ _))
      (hmt.longest _ _ hm.lexeme (hsplit ▸ List.prefix_append _ _))
  obtain ⟨heq, -⟩ := List.append_inj hsplit hlength
  have hkind : t.kind = kind := (heq ▸ hmt.lexeme).kind_unique hm.lexeme
  have htext : t.text = String.ofList text := by rw [← heq, String.ofList_toList]
  obtain ⟨k, x, start, stop⟩ := t
  dsimp only at hi hstop hkind htext
  rw [hi, hstop, hkind, htext, Text.units, String.toList_ofList]

/-- Where a lexeme starts, the lexing does not stop, and a token covers the place. -/
theorem covered (hm : Munch c.toDefinition kind text rest)
    (h : MaximalMunch c.toDefinition offset (text ++ rest) l) :
    ∃ t ∈ l.tokens, t.start ≤ ↑offset ∧ ↑offset < t.stop := by
  obtain ⟨ch, text', rfl, -⟩ := hm.lexeme.exists_cons
  have hstray : ∀ s, l.stray = some s → offset < s.offset := by
    intro s hs
    obtain ⟨-, -, rest', hat, hno⟩ := h.stray s hs
    refine Nat.lt_of_not_le fun hle => ?_
    exact Token.not_prefix_of_head? (Token.head?_eq_none.mpr hno) hm.lexeme
      ((hat.eq_start hle).2 ▸ List.prefix_append _ _)
  refine Classical.byContradiction fun hnone => ?_
  have hspacing := h.spaced offset ch _ (.start offset _) hstray
    fun t ht hcov => hnone ⟨t, ht, hcov⟩
  rw [hm.lexeme.isSpacing_eq_false ch List.mem_cons_self] at hspacing
  cases hspacing

theorem munch_iff (hm : Munch c.toDefinition kind text rest) :
    MaximalMunch c.toDefinition offset (text ++ rest) l ↔
      ∃ ts, l.tokens =
          ⟨kind, String.ofList text, offset, ↑(offset + Text.unitsOf text)⟩ :: ts ∧
        MaximalMunch c.toDefinition (offset + Text.unitsOf text) rest ⟨ts, l.stray⟩ := by
  obtain ⟨tokens, stray⟩ := l
  have hpos : 0 < Text.unitsOf text := Text.unitsOf_pos hm.lexeme.ne_nil
  constructor
  · intro h
    obtain ⟨t, ht, hle, hlt⟩ := covered hm h
    have htoken := eq_of_start hm (h.munched t ht) hle
    obtain ⟨u, ts, rfl⟩ := List.exists_cons_of_ne_nil (List.ne_nil_of_mem ht)
    -- it is the first of the tokens: one before it would end where it starts
    have hu : u = t := by
      rcases List.mem_cons.mp ht with hut | ht'
      · exact hut.symm
      · obtain ⟨i, _, hat, hstart, hstop, hmu⟩ := h.munched u List.mem_cons_self
        have hbefore := (List.pairwise_cons.mp h.ordered).1 t ht'
        have hpos' : 0 < Text.units u.text := Text.unitsOf_pos hmu.lexeme.ne_nil
        have := hat.le
        omega
    subst hu
    rw [htoken] at h ⊢
    refine ⟨ts, rfl, drop text [_] h ?_ ?_ ?_⟩
    · exact List.forall_mem_singleton.mpr (Int.le_refl _)
    · exact (List.pairwise_cons.mp h.ordered).1
    · intro s hs
      exact Int.ofNat_le.mp ((h.stray s hs).1 _ List.mem_cons_self)
  · rintro ⟨ts, rfl, h⟩
    refine extend text [_] h (List.pairwise_singleton _ _) ?_ ?_
    · refine List.forall_mem_singleton.mpr ⟨⟨offset, rest, ?_, rfl, ?_, ?_⟩, Int.le_refl _⟩
      · exact String.toList_ofList ▸ Text.At.start offset _
      · rw [Text.units, String.toList_ofList]
      · exact String.toList_ofList ▸ hm
    · intro i ch rest' hat hi hcov
      exact absurd ⟨Int.ofNat_le.mpr hat.le, Int.ofNat_lt.mpr hi⟩ (hcov _ List.mem_cons_self)

theorem stray_iff (hspacing : Text.isSpacing ch = false)
    (hno : Token.head? c.symbols (ch :: rest) = none) :
    MaximalMunch c.toDefinition offset (ch :: rest) l ↔ l = ⟨[], some ⟨ch, offset⟩⟩ := by
  have hstart : Text.At offset (ch :: rest) offset (ch :: rest) := .start offset _
  constructor
  · intro h
    obtain ⟨tokens, stray⟩ := l
    -- no token starts here, and none reaches over what stands here
    have hstarts : ∀ t ∈ tokens, ↑offset < t.start := by
      intro t ht
      obtain ⟨i, rest', hat, hi, -, hm⟩ := h.munched t ht
      have hle := hat.le
      refine hi ▸ Int.ofNat_lt.mpr (Nat.lt_of_not_le fun hge => ?_)
      exact Token.not_prefix_of_head? hno hm.lexeme
        ((hat.eq_start hge).2 ▸ List.prefix_append _ _)
    cases stray with
    | none =>
        have := h.spaced offset ch rest hstart nofun fun t ht hcov =>
          absurd (hstarts t ht) (Int.not_lt.mpr hcov.1)
        rw [hspacing] at this
        cases this
    | some s =>
        obtain ⟨hbehind, -, rest', hat, -⟩ := h.stray s rfl
        have hle : s.offset ≤ offset := by
          refine Nat.le_of_not_lt fun hlt => ?_
          have := h.spaced offset ch rest hstart (fun s' hs' => Option.some.inj hs' ▸ hlt)
            fun t ht hcov => absurd (hstarts t ht) (Int.not_lt.mpr hcov.1)
          rw [hspacing] at this
          cases this
        obtain ⟨hs, htail⟩ := hat.eq_start hle
        have htokens : tokens = [] := by
          refine List.eq_nil_iff_forall_not_mem.mpr fun t ht => ?_
          obtain ⟨i, _, _, hi, hstop, _⟩ := h.munched t ht
          have := hbehind t ht
          have := hstarts t ht
          omega
        obtain ⟨ch', offset'⟩ := s
        cases hs
        cases (List.cons.inj htail).1
        rw [htokens]
  · rintro rfl
    refine ⟨.nil, nofun, fun i ch' rest' hat hbefore _ => ?_, fun s hs => ?_⟩
    · exact absurd (hbefore _ rfl) (Nat.not_lt.mpr hat.le)
    · cases hs
      exact ⟨nofun, hspacing, rest, hstart, Token.head?_eq_none.mp hno⟩

end MaximalMunch

/-! ## The lexer -/

namespace Token

variable {c : Catalog} {symbols : List Symbol} {ch : Char} {offset : Nat} {kind : Kind}
  {text rest : List Char}

theorem lexFrom_spacing (h : Text.isSpacing ch = true) :
    lexFrom symbols offset (ch :: rest) = lexFrom symbols (offset + Text.charUnits ch) rest := by
  rw [lexFrom, if_pos h]

theorem lexFrom_munch (offset : Nat) (hm : Munch c.toDefinition kind text rest) :
    lexFrom c.symbols offset (text ++ rest) =
      let more := lexFrom c.symbols (offset + Text.unitsOf text) rest
      ⟨⟨kind, String.ofList text, offset, ↑(offset + Text.unitsOf text)⟩ :: more.tokens,
        more.stray⟩ := by
  obtain ⟨ch, text', rfl, -⟩ := hm.lexeme.exists_cons
  have hspacing := hm.lexeme.isSpacing_eq_false ch List.mem_cons_self
  have hhead := hm.head?_eq
  have htake : (ch :: (text' ++ rest)).take (ch :: text').length = ch :: text' := List.take_left
  have hdrop : (text' ++ rest).drop ((ch :: text').length - 1) = rest := List.drop_left
  rw [List.cons_append] at hhead ⊢
  rw [lexFrom, hspacing, hhead]
  simp only [Bool.false_eq_true, if_false, htake, hdrop]

theorem lexFrom_stray (hspacing : Text.isSpacing ch = false)
    (hno : head? symbols (ch :: rest) = none) :
    lexFrom symbols offset (ch :: rest) = ⟨[], some ⟨ch, offset⟩⟩ := by
  rw [lexFrom, hspacing, hno]
  rfl

end Token

/-- Characters begin in one of four ways: not at all, with spacing, with a longest
lexeme, or with something that no token starts with. -/
theorem Token.lex_induction (c : Catalog) {P : List Char → Prop} (nil : P [])
    (spacing : ∀ ch rest, Text.isSpacing ch = true → P rest → P (ch :: rest))
    (token : ∀ kind text rest, Munch c.toDefinition kind text rest → P rest → P (text ++ rest))
    (stray : ∀ ch rest, Text.isSpacing ch = false → head? c.symbols (ch :: rest) = none →
      P (ch :: rest))
    (cs : List Char) : P cs := by
  match cs with
  | [] => exact nil
  | ch :: rest =>
      cases hspacing : Text.isSpacing ch with
      | true => exact spacing ch rest hspacing (lex_induction c nil spacing token stray rest)
      | false =>
          cases hhead : head? c.symbols (ch :: rest) with
          | none => exact stray ch rest hspacing hhead
          | some found =>
              obtain ⟨text, rest', hsplit, -, hm⟩ := exists_munch hhead
              have hshorter : rest'.length < (ch :: rest).length := by
                have := List.length_pos_iff.mpr hm.lexeme.ne_nil
                rw [hsplit, List.length_append]
                omega
              rw [hsplit]
              exact token _ text rest' hm (lex_induction c nil spacing token stray rest')
termination_by cs.length
decreasing_by
  · exact hshorter
  · exact Nat.lt_succ_self _

/-- The lexer's tokens are the only maximal munch of characters. -/
theorem maximalMunch_iff (c : Catalog) (offset : Nat) (cs : List Char) (l : Lexing) :
    MaximalMunch c.toDefinition offset cs l ↔ l = Token.lexFrom c.symbols offset cs := by
  induction cs using Token.lex_induction c generalizing offset l with
  | nil => rw [MaximalMunch.nil_iff, Token.lexFrom]
  | spacing ch rest hspacing ih =>
      rw [MaximalMunch.spacing_iff hspacing, Token.lexFrom_spacing hspacing]
      exact ih _ l
  | stray ch rest hspacing hhead =>
      rw [MaximalMunch.stray_iff hspacing hhead, Token.lexFrom_stray hspacing hhead]
  | token kind text rest hm ih =>
      rw [MaximalMunch.munch_iff hm, Token.lexFrom_munch _ hm]
      obtain ⟨tokens, stray⟩ := l
      constructor
      · rintro ⟨ts, rfl, h⟩
        rw [← (ih _ _).mp h]
      · intro h
        cases h
        exact ⟨_, rfl, (ih _ _).mpr rfl⟩

theorem Catalog.lexeme_of_mem_lex {c : Catalog} {source : String} {t : Token}
    (h : t ∈ (c.lex source).tokens) : Lexeme c.toDefinition t.kind t.text.toList := by
  obtain ⟨_, _, -, -, -, hm⟩ := ((maximalMunch_iff c 0 source.toList _).mpr rfl).munched t h
  exact hm.lexeme

theorem Catalog.spells_of_mem_lex {c : Catalog} {source : String} {t : Token}
    (h : t ∈ (c.lex source).tokens) (hk : t.kind = .literal) : ∃ m e, Spells t.text.toList m e := by
  have hl := lexeme_of_mem_lex h
  rw [hk] at hl
  cases hl with
  | numeral hs => exact ⟨_, _, hs⟩

theorem Catalog.length_pos_of_mem_lex {c : Catalog} {source : String} {t : Token}
    (h : t ∈ (c.lex source).tokens) : 0 < t.text.length := by
  rw [← String.length_toList]
  exact List.length_pos_iff.mpr (lexeme_of_mem_lex h).ne_nil

/-- A token is a piece of its source. -/
theorem Catalog.length_le_of_mem_lex {c : Catalog} {source : String} {t : Token}
    (h : t ∈ (c.lex source).tokens) : t.text.length ≤ source.length := by
  obtain ⟨_, rest, ⟨before, hsource, -⟩, -⟩ :=
    ((maximalMunch_iff c 0 source.toList _).mpr rfl).munched t h
  rw [← String.length_toList, ← String.length_toList, hsource, List.length_append,
    List.length_append]
  omega

/-- The tokens of a source are its only maximal munch.  Lexing comes to the end
if nothing but spacing is left behind the last of them; otherwise it fails at
the first character there that is no spacing. -/
theorem lex_only_maximalMunch (c : Catalog) (source : String) :
    (∀ l, MaximalMunch c.toDefinition 0 source.toList l ↔ l = c.lex source) ∧
    ((c.lex source).stray = none ↔
      ∀ i ch rest, Text.At 0 source.toList i (ch :: rest) →
        (∀ t ∈ (c.lex source).tokens, t.stop ≤ i) → Text.isSpacing ch = true) ∧
    ∀ s, (c.lex source).stray = some s →
      (s.problem.failure source).category = .lexical (String.singleton s.char) ∧
      (s.problem.failure source).index = some (.units s.offset) ∧
      ∀ i ch rest, Text.At 0 source.toList i (ch :: rest) →
        (∀ t ∈ (c.lex source).tokens, t.stop ≤ i) → Text.isSpacing ch = false → s.offset ≤ i := by
  have hiff := maximalMunch_iff c 0 source.toList
  have hm : MaximalMunch c.toDefinition 0 source.toList (c.lex source) := (hiff _).mpr rfl
  refine ⟨hiff, ⟨fun hnone i ch rest hat hbehind => ?_, fun hall => ?_⟩, fun s hs => ⟨rfl, ?_, ?_⟩⟩
  · refine hm.spaced i ch rest hat (fun s hs => ?_) fun t ht hcov =>
      absurd hcov.2 (Int.not_lt.mpr (hbehind t ht))
    rw [hnone] at hs
    cases hs
  · cases hstray : (c.lex source).stray with
    | none => rfl
    | some s =>
        obtain ⟨hbehind, hspacing, rest, hat, -⟩ := hm.stray s hstray
        have := hall s.offset s.char rest hat hbehind
        rw [hspacing] at this
        cases this
  · have hlocated : (Text.Offset.units ↑s.offset).isLocated = true := by
      simp only [Text.Offset.isLocated]
      exact decide_eq_true (Int.natCast_nonneg _)
    exact Option.filter_some_pos hlocated
  · intro i ch rest hat hbehind hspacing
    refine Nat.le_of_not_lt fun hlt => ?_
    have := hm.spaced i ch rest hat (fun s' hs' => ?_) fun t ht hcov =>
      absurd hcov.2 (Int.not_lt.mpr (hbehind t ht))
    · rw [hspacing] at this
      cases this
    · rw [hs] at hs'
      cases hs'
      exact hlt

end Reckoner
