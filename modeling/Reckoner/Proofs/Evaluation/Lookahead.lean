/-
# A character that no token starts with

A token is handled once the one behind it has been read.  A source whose lexing
stops at a character is therefore evaluated as follows, if `t₁ … tₙ` are its
tokens:

    t₁ … tₙ₋₁ are handled, each with the one behind it in view
        a problem of one of them     it is raised
        none                         the character is the problem

The last token is in view of the one in front of it, whose bracket it may be if
that is the name of a function, and is not handled itself: what it is decides
nothing else, and it makes no step (`Ahead.of_last`).  What stands behind the
character decides nothing at all: up to it, the tokens are those of the text in
front alone (`Token.lexFrom_front`).
-/
import Reckoner.Catalog.Preset
import Reckoner.Proofs.Evaluation.Moment
import Reckoner.Proofs.Token.MaximalMunch

namespace Reckoner

/-- `Ahead c n st ts r`: all tokens but the last are handled from `st` on, each with
the one behind it in view, and `r` comes of it: a state, or the first problem.  The
name of a function takes its bracket with it, be it the last token or not. -/
inductive Ahead (c : Catalog) (n : Numerics) : State → List Token → Except Halt State → Prop
  | none {st : State} : Ahead c n st [] (.ok st)
  | last {st : State} {token : Token} : Ahead c n st [token] (.ok st)
  | token {st st' : State} {token next : Token} {rest : List Token} {r : Except Halt State} :
      st.handle c n token (some next) = .ok (st', false) → Ahead c n st' (next :: rest) r →
      Ahead c n st (token :: next :: rest) r
  | name {st st' : State} {token next : Token} {rest : List Token} {r : Except Halt State} :
      st.handle c n token (some next) = .ok (st', true) → Ahead c n st' rest r →
      Ahead c n st (token :: next :: rest) r
  | stop {st : State} {token next : Token} {rest : List Token} {halt : Halt} :
      st.handle c n token (some next) = .error halt →
      Ahead c n st (token :: next :: rest) (.error halt)

section

variable {c : Catalog} {n : Numerics} {width : Nat}

/-! ## Handling all tokens but the last -/

theorem Ahead.exists_result (c : Catalog) (n : Numerics) (st : State) (ts : List Token) :
    ∃ r, Ahead c n st ts r := by
  match ts with
  | [] => exact ⟨_, .none⟩
  | [_] => exact ⟨_, .last⟩
  | first :: next :: rest =>
      cases h : st.handle c n first (some next) with
      | error halt => exact ⟨_, .stop h⟩
      | ok r =>
          obtain ⟨st', used⟩ := r
          cases used with
          | false =>
              obtain ⟨r, hr⟩ := exists_result c n st' (next :: rest)
              exact ⟨r, .token h hr⟩
          | true =>
              obtain ⟨r, hr⟩ := exists_result c n st' rest
              exact ⟨r, .name h hr⟩
termination_by ts.length

/-- A run to a character that starts no token handles all tokens but the last. -/
theorem Ahead.run_eq {st : State} {ts : List Token} {r : Except Halt State} (s : Stray)
    (h : Ahead c n st ts r) : State.run c n width (some s) st ts = r >>= (·.haltAtStray s) := by
  induction h with
  | none | last => rfl
  | token hh _ ih | name hh _ ih =>
      simp only [State.run, hh, ok_bind]
      exact ih
  | stop hh =>
      simp only [State.run, hh]
      rfl

/-- Of the token in view, only the call that it may open is looked at. -/
theorem State.handle_of_view {st : State} {token : Token} {next next' : Option Token}
    (h : callBrackets? c next' = callBrackets? c next) :
    st.handle c n token next' = st.handle c n token next := by
  simp only [handle, identifier, function, h]

/-- Another last token changes nothing, unless it opens another call. -/
theorem Ahead.of_last {st : State} (front : List Token) {t u : Token} {r : Except Halt State}
    (hu : State.callBrackets? c (some u) = State.callBrackets? c (some t))
    (h : Ahead c n st (front ++ [t]) r) : Ahead c n st (front ++ [u]) r := by
  match front with
  | [] =>
      cases h
      exact .last
  | [first] =>
      have hview : st.handle c n first (some u) = st.handle c n first (some t) :=
        State.handle_of_view hu
      cases h with
      | token hh hr =>
          cases hr
          exact .token (hview.trans hh) .last
      | name hh hr =>
          cases hr
          exact .name (hview.trans hh) .none
      | stop hh => exact .stop (hview.trans hh)
  | first :: next :: front =>
      cases h with
      | token hh hr => exact .token hh (of_last (next :: front) hu hr)
      | name hh hr => exact .name hh (of_last front hu hr)
      | stop hh => exact .stop hh
termination_by front.length

end

/-! ## What stands behind the character -/

section

variable {c : Catalog} {kind : Token.Kind} {text rest more a b : List Char} {ch : Char}
  {offset : Nat}

/-- A longest lexeme is the longest in less, too. -/
theorem Munch.front (h : Munch c.toDefinition kind text (rest ++ more)) :
    Munch c.toDefinition kind text rest where
  lexeme := h.lexeme
  longest kind' text' h' hp :=
    h.longest kind' text' h' (hp.trans (List.append_assoc .. ▸ List.prefix_append _ more))

namespace Token

theorem le_stray {cs : List Char} {s : Stray} (h : (lexFrom c.symbols offset cs).stray = some s) :
    offset ≤ s.offset := by
  obtain ⟨-, -, _, hat, -⟩ := ((maximalMunch_iff c offset cs _).mpr rfl).stray s h
  exact hat.le

/-- Where lexing stops behind `a`, it has found the tokens of `a`. -/
theorem lexFrom_front (a : List Char)
    (h : (lexFrom c.symbols offset (a ++ ch :: b)).stray = some ⟨ch, offset + Text.unitsOf a⟩) :
    lexFrom c.symbols offset a = ⟨(lexFrom c.symbols offset (a ++ ch :: b)).tokens, none⟩ := by
  generalize hcs : a ++ ch :: b = cs at h
  induction cs using lex_induction c generalizing offset a with
  | nil => cases (List.append_eq_nil_iff.mp hcs).2
  | spacing first rest hspacing ih =>
      rw [lexFrom_spacing hspacing] at h ⊢
      cases a with
      | nil =>
          cases hcs
          have hle := le_stray h
          have hpos := Text.charUnits_pos ch
          simp only [Text.unitsOf] at hle
          omega
      | cons first' a =>
          cases hcs
          rw [lexFrom_spacing hspacing]
          refine ih a rfl ?_
          rw [h, Text.unitsOf, Nat.add_assoc]
  | token kind text rest hm ih =>
      rw [lexFrom_munch _ hm] at h ⊢
      have hle : offset + Text.unitsOf text ≤ offset + Text.unitsOf a := le_stray h
      -- the lexeme ends in front of the character
      obtain ⟨a', rfl, rfl⟩ : ∃ a', a = text ++ a' ∧ rest = a' ++ ch :: b := by
        rcases List.append_eq_append_iff.mp hcs with ⟨beyond, rfl, hrest⟩ | ⟨a', rfl, hrest⟩
        · cases beyond with
          | nil => exact ⟨[], by simp only [List.append_nil], hrest.symm⟩
          | cons ch' beyond =>
              rw [Text.unitsOf_append] at hle
              have := Text.unitsOf_pos (List.cons_ne_nil ch' beyond)
              omega
        · exact ⟨a', rfl, hrest⟩
      rw [Text.unitsOf_append, ← Nat.add_assoc] at h
      rw [lexFrom_munch _ hm.front, ih a' rfl h]
  | stray first rest hspacing hhead =>
      rw [lexFrom_stray hspacing hhead] at h ⊢
      have hoffset := congrArg Stray.offset (Option.some.inj h)
      cases a with
      | nil => rw [lexFrom]
      | cons first' a =>
          have := Text.unitsOf_pos (List.cons_ne_nil first' a)
          simp only at hoffset
          omega

end Token

end

/-- A source whose lexing stops at a character: its tokens but the last are handled,
each with the one behind it in view.  If one of them raises a problem, the evaluation
fails with the first that does; otherwise it fails at the character.  In either case
its steps are those made by these tokens.  What the last token is does not count,
unless it is the bracket of a call in view of the name in front of it, and nothing
that stands behind the character counts. -/
theorem stray_waits_for_token_before (c : Catalog) (n : Numerics) (source : String) (s : Stray)
    (h : (c.lex source).stray = some s) :
    (∃ r, Ahead c n .initial (c.lex source).tokens r) ∧
    (∀ st, Ahead c n .initial (c.lex source).tokens (.ok st) →
      Evaluation.ofSource c n source = ⟨st.work.steps.reverse, .error s.problem⟩) ∧
    (∀ halt, Ahead c n .initial (c.lex source).tokens (.error halt) →
      Evaluation.ofSource c n source = ⟨halt.steps.reverse, .error halt.problem⟩) ∧
    (∀ front t u width, (c.lex source).tokens = front ++ [t] →
      State.callBrackets? c (some u) = State.callBrackets? c (some t) →
      Evaluation.ofLexing c n width ⟨front ++ [u], some s⟩ = Evaluation.ofSource c n source) ∧
    ∃ before behind, source = before ++ String.singleton s.char ++ behind ∧
      s.offset = Text.units before ∧
      ∀ width, Evaluation.ofLexing c n width ⟨(c.lex before).tokens, some s⟩ =
        Evaluation.ofSource c n source := by
  have hlexing : ∀ width ts r, Ahead c n .initial ts r →
      Evaluation.ofLexing c n width ⟨ts, some s⟩ = match r with
        | .ok st => ⟨st.work.steps.reverse, .error s.problem⟩
        | .error halt => ⟨halt.steps.reverse, .error halt.problem⟩ := by
    intro width ts r hr
    simp only [Evaluation.ofLexing, hr.run_eq s]
    cases r <;> rfl
  have hsource : Evaluation.ofSource c n source =
      Evaluation.ofLexing c n (Text.units source) ⟨(c.lex source).tokens, some s⟩ := by
    rw [Evaluation.ofSource, ← h]
  rw [hsource]
  obtain ⟨r, hr⟩ := Ahead.exists_result c n .initial (c.lex source).tokens
  refine ⟨⟨r, hr⟩, fun st hst => hlexing _ _ _ hst, fun halt hhalt => hlexing _ _ _ hhalt, ?_, ?_⟩
  · intro front t u width htokens hu
    rw [htokens] at hr ⊢
    rw [hlexing _ _ _ hr, hlexing _ _ _ (Ahead.of_last _ hu hr)]
  · obtain ⟨-, -, behind, ⟨before, hsplit, hoffset⟩, -⟩ :=
      ((maximalMunch_iff c 0 source.toList _).mpr rfl).stray s h
    have hfront : c.lex (String.ofList before) = ⟨(c.lex source).tokens, none⟩ := by
      have hstray : (Token.lexFrom c.symbols 0 (before ++ s.char :: behind)).stray =
          some ⟨s.char, 0 + Text.unitsOf before⟩ := by
        rw [← hsplit, ← hoffset]
        exact h
      rw [Catalog.lex, String.toList_ofList, Token.lexFrom_front before hstray, ← hsplit]
      rfl
    refine ⟨String.ofList before, String.ofList behind, ?_, ?_, fun width => ?_⟩
    · refine String.toList_injective ?_
      simp only [String.toList_append, String.toList_ofList, String.toList_singleton, hsplit,
        List.append_assoc, List.singleton_append]
    · rw [hoffset, Nat.zero_add, Text.units, String.toList_ofList]
    · rw [hfront, hlexing _ _ _ hr, hlexing _ _ _ hr]

theorem strayBehindBracket_waits :
    let c := Preset.catalog .standard
    let n : Numerics := ⟨20, fun _ => Decimal.zero⟩
    Evaluation.ofSource c n "2-)#" = ⟨[], .error ⟨.stray '#', some ⟨3, 1⟩⟩⟩ ∧
      Evaluation.ofSource c n "2))#" = ⟨[], .error ⟨.unmatched ")", some ⟨1, 1⟩⟩⟩ := by
  intro c n
  have hoperator : c.lex "2-)#" = ⟨[⟨.literal, "2", 0, 1⟩, ⟨.symbol .operator, "-", 1, 2⟩,
      ⟨.symbol .closing, ")", 2, 3⟩], some ⟨'#', 3⟩⟩ := by decide +kernel
  have hbracket : c.lex "2))#" = ⟨[⟨.literal, "2", 0, 1⟩, ⟨.symbol .closing, ")", 1, 2⟩,
      ⟨.symbol .closing, ")", 2, 3⟩], some ⟨'#', 3⟩⟩ := by decide +kernel
  have hliteral : State.initial.literal n ⟨.literal, "2", 0, 1⟩ =
      .ok ⟨⟨[.finite ⟨false, 2, 0⟩], []⟩, [], .operand⟩ := toOption_eq_some.mp (by decide +kernel)
  have htwo : ∀ next, State.initial.handle c n ⟨.literal, "2", 0, 1⟩ (some next) =
      .ok (⟨⟨[.finite ⟨false, 2, 0⟩], []⟩, [], .operand⟩, false) := by
    intro next
    simp only [State.handle, hliteral]
    rfl
  -- the bracket is the last token, and is not handled
  have hquiet : Ahead c n .initial (c.lex "2-)#").tokens (.ok ⟨⟨[.finite ⟨false, 2, 0⟩], []⟩,
      [.operator (Preset.leftward .subtract "-" 1) ⟨.symbol .operator, "-", 1, 2⟩], .operator⟩) := by
    rw [hoperator]
    exact .token (htwo _) (.token rfl .last)
  -- the first bracket is not the last token
  have hraised : Ahead c n .initial (c.lex "2))#").tokens
      (.error ⟨⟨.unmatched ")", some ⟨1, 1⟩⟩, []⟩) := by
    rw [hbracket]
    exact .token (htwo _) (.stop rfl)
  have hstray := stray_waits_for_token_before c n "2-)#" ⟨'#', 3⟩ (by rw [hoperator])
  have hstray' := stray_waits_for_token_before c n "2))#" ⟨'#', 3⟩ (by rw [hbracket])
  exact ⟨hstray.2.1 _ hquiet, hstray'.2.2.1 _ hraised⟩

end Reckoner
