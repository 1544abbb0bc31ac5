/-
# Where failures are

A failure that comes of a call has an offset in the source.  The offset comes
from one of four sites,

    a token             where it starts or ends, or an end of the source
    a stray character   where it stands
    the limit           as many units from the start as a source may have

and no token and no stray character reaches into a break.  So a reader who
counts lines and columns finds the place of a failure (`evaluate_located`): it
is only the limit on lengths that may cut a break of two characters in half.

If the category of a failure names something, this is the text at the offset:
all of a token, or the stray character that no token covers.  The carets of the
failure stand under just this text (`evaluate_names`).

A bracket that is not closed is the innermost one that is open at the end of the
source, and the failure is where it starts (`evaluate_unclosed`).  It is only the
bracket of a call with something between it and the name that the failure misses:
then it is where the name ends.
-/
import Reckoner.Proofs.Evaluation.Unclosed
import Reckoner.Proofs.Session.Quiet
import Reckoner.Proofs.Token.Place

namespace Reckoner

/-- The failure of the expression that stopped an evaluation, if one did. -/
def Attempt.failure? (attempt : Attempt) : Option Failure :=
  match attempt.result with
  | .error (.failure f) => some f
  | _ => none

/-! ## Failures come of problems -/

section

variable {e : Engine} {n : Numerics} {source : String} {problem : Problem}

theorem Attempt.result_of_failure? {attempt : Attempt} {f : Failure}
    (h : attempt.failure? = some f) : attempt.result = .error (.failure f) := by
  unfold failure? at h
  split at h
  · next hresult =>
      cases h
      exact hresult
  · cases h

theorem Session.exists_problem {s : Session} {draws : Draws} {f : Failure}
    (h : (s.evaluate draws e source).1.failure? = some f) :
    ∃ n problem, (e.evaluate n source).result = .error problem ∧ f = problem.failure source := by
  have h := Attempt.result_of_failure? h
  unfold evaluate at h
  cases hl : e.lengthProblem? source with
  | some problem =>
      rw [hl] at h
      cases h
      exact ⟨⟨0, fun _ => .zero⟩, problem, by rw [Engine.evaluate, hl], rfl⟩
  | none =>
      rw [hl] at h
      dsimp only [resultOf] at h
      split at h
      · cases h
      · cases h
      · next problem hraised hresult =>
          cases h
          exact ⟨_, problem, by rw [Engine.evaluate, hl]; exact hresult, rfl⟩

/-- A problem with a source is that it is too long, a character that starts no token, or a
problem with its tokens. -/
theorem Engine.problem_of_evaluate (h : (e.evaluate n source).result = .error problem) :
    (∃ limit, e.maxLength = some limit ∧ limit < Text.units source ∧
        problem = ⟨.tooLong limit, some ⟨limit, 1⟩⟩) ∨
      (∃ s, (e.catalog.lex source).stray = some s ∧ problem = s.problem) ∨
      (Evaluation.ofTokens e.catalog n (Text.units source) (e.catalog.lex source).tokens).result =
        .error problem := by
  unfold evaluate lengthProblem? at h
  split at h
  · next limitProblem hlimit =>
      cases h
      split at hlimit
      · next limit hmax =>
          split at hlimit
          · next hlt =>
              cases hlimit
              exact .inl ⟨limit, hmax, hlt, rfl⟩
          · cases hlimit
      · cases hlimit
  · exact .inr (Evaluation.problem_of_ofSource h)

/-- A problem with a source points at one of its tokens or one of its ends, at
the character that starts no token, or at the limit of the engine. -/
theorem Engine.exists_site (h : (e.evaluate n source).result = .error problem) :
    PointsAt (e.catalog.lex source).tokens (Text.units source) problem ∨
      (∃ s, (e.catalog.lex source).stray = some s ∧ problem = s.problem) ∨
      ∃ limit, e.maxLength = some limit ∧ limit < Text.units source ∧
        problem = ⟨.tooLong limit, some ⟨limit, 1⟩⟩ := by
  rcases Engine.problem_of_evaluate h with hlimit | hstray | htokens
  · exact .inr (.inr hlimit)
  · exact .inr (.inl hstray)
  · have haccounts : Accounts (PointsAt (e.catalog.lex source).tokens (Text.units source))
        (fun _ => True)
        (State.initial.run e.catalog n (Text.units source) none (e.catalog.lex source).tokens) :=
      State.accounts_run (fun _ hentry => absurd hentry List.not_mem_nil) (fun _ ht => ht)
        fun _ ht => (Catalog.lexeme_of_mem_lex ht).kind_mem_known
    unfold Evaluation.ofTokens Evaluation.ofLexing at htokens
    split at htokens
    · cases htokens
    · next halt hhalt =>
        cases htokens
        exact .inl (haccounts.error hhalt)

/-- What a failure tells of a problem at an offset. -/
theorem Problem.failure_at (source : String) (cause : Cause) (i length : Nat) :
    Problem.failure source ⟨cause, some ⟨i, length⟩⟩ =
      { category := cause.category
        message := cause.message
        note := cause.note
        index := some (.units i)
        position := some (Text.position source (.units i))
        snippet := Text.snippetAt source (Text.position source (.units i)) (.units length)
          cause.message
        hasCause := cause.hasCause } := by
  have hlocated : Option.filter Text.Offset.isLocated (some (.units i)) = some (.units (i : Int)) :=
    Option.filter_some_pos (decide_eq_true (Int.natCast_nonneg i))
  simp only [failure, Failure.make, Option.map_some, hlocated]
  rfl

end

/-! ## Offsets of tokens -/

namespace Text

variable {offset i : Nat} {cs text rest : List Char}

/-- What stands at an offset ends behind it. -/
theorem At.ends (h : At offset cs i (text ++ rest)) : At offset cs (i + unitsOf text) rest := by
  obtain ⟨before, rfl, rfl⟩ := h
  exact ⟨before ++ text, (List.append_assoc _ _ _).symm, by rw [unitsOf_append, Nat.add_assoc]⟩

/-- The offset behind a text without breaks is not inside of one. -/
theorem At.ends_not_insideBreak (h : At offset cs i (text ++ rest)) (hne : text ≠ [])
    (hb : ∀ ch ∈ text, isBreak ch = false) : ¬ InsideBreak offset cs (i + unitsOf text) := by
  rintro ⟨j, tail, hat, hj⟩
  obtain ⟨init, ch, rfl⟩ := List.eq_nil_or_concat text |>.resolve_left hne
  -- the carriage return would be the last character of the text, or within it
  rw [List.concat_eq_append, List.append_assoc, List.singleton_append] at h
  rw [List.concat_eq_append, unitsOf_append] at hj
  have hlast : unitsOf [ch] = charUnits ch := rfl
  have hpos := charUnits_pos ch
  obtain ⟨before, rfl, hi⟩ := h.ends
  have hbehind := hat.drop (by omega)
  rw [← hi] at hbehind
  rcases hbehind.cons with rfl | hle
  · have hreturn : '\r' ∈ init.concat '\r' := by
      rw [List.concat_eq_append]
      exact List.mem_append_right _ List.mem_cons_self
    cases hb _ hreturn
  · omega

theorem not_insideBreak_zero (cs : List Char) : ¬ InsideBreak 0 cs 0 := by
  rintro ⟨j, tail, -, hj⟩
  cases hj

theorem not_insideBreak_width (cs : List Char) : ¬ InsideBreak 0 cs (unitsOf cs) := by
  rintro ⟨j, tail, ⟨before, rfl, rfl⟩, hj⟩
  have hbreak : unitsOf ('\r' :: '\n' :: tail) = 2 + unitsOf tail := (Nat.add_assoc 1 1 _).symm
  rw [unitsOf_append] at hj
  omega

end Text

section

variable {c : Catalog} {source : String} {t : Token}

/-- What points at a token or an end of a source points at no offset inside a
break. -/
theorem PointsAt.exists_offset {problem : Problem}
    (h : PointsAt (c.lex source).tokens (Text.units source) problem) :
    ∃ cause i length, problem = ⟨cause, some ⟨(i : Nat), length⟩⟩ ∧ i ≤ Text.units source ∧
      ¬ Text.InsideBreak 0 source.toList i := by
  have hstarts : ∀ t ∈ (c.lex source).tokens, ∃ i : Nat, t.start = ↑i ∧ i ≤ Text.units source ∧
      ¬ Text.InsideBreak 0 source.toList i := by
    intro t ht
    obtain ⟨i, rest, hat, hstart, -, hne, hb⟩ := Catalog.exists_at_of_mem_lex ht
    exact ⟨i, hstart, hat.le_units, hat.not_insideBreak hne hb⟩
  cases h with
  | @named cause t ht _ _ | @start cause t _ ht _ =>
      obtain ⟨i, hi, h⟩ := hstarts t ht
      exact ⟨cause, i, _, by rw [hi], h⟩
  | @stop cause t length ht _ =>
      obtain ⟨i, rest, hat, -, hstop, hne, hb⟩ := Catalog.exists_at_of_mem_lex ht
      exact ⟨cause, i + Text.units t.text, length, by rw [hstop], hat.ends.le_units,
        hat.ends_not_insideBreak hne hb⟩
  | @front cause length _ =>
      exact ⟨cause, 0, length, rfl, Nat.zero_le _, Text.not_insideBreak_zero _⟩
  | @back cause length _ =>
      exact ⟨cause, _, length, rfl, Nat.le_refl _, Text.not_insideBreak_width _⟩

end

/-! ## Positions and names -/

namespace Session

/-- Whatever the catalog, the precision and the limit on lengths are, a failure
has an offset within the source and a position.  The position is where a reader
finds the offset, with the column at least one and at most one behind the line,
unless the offset is the limit and cuts a break of two characters in half: then
the column is zero. -/
theorem evaluate_located (s : Session) (draws : Draws) (e : Engine) (source : String)
    {f : Failure} (h : (s.evaluate draws e source).1.failure? = some f) :
    ∃ i p, f.index = some (.units (i : Nat)) ∧ f.position = some p ∧ i ≤ Text.units source ∧
      1 ≤ p.line ∧ (p.Marks source i ∨
        e.maxLength = some i ∧ Text.InsideBreak 0 source.toList i ∧ p.column = 0) := by
  have hline : ∀ i, 1 ≤ (Text.position source i).line :=
    fun _ => Text.line_le_positionFrom _ _ _ _ _
  obtain ⟨n, problem, hresult, rfl⟩ := exists_problem h
  rcases Engine.exists_site hresult with hpoints | ⟨stray, hstray, rfl⟩ | ⟨limit, hmax, hlt, rfl⟩
  · obtain ⟨cause, i, length, rfl, hi, hb⟩ := hpoints.exists_offset
    rw [Problem.failure_at]
    exact ⟨i, _, rfl, rfl, hi, hline _, .inl (Text.position_marks hi hb)⟩
  · obtain ⟨rest, hat, hb, -⟩ := Catalog.exists_at_of_stray hstray
    rw [Stray.problem, Problem.failure_at]
    refine ⟨stray.offset, _, rfl, rfl, hat.le_units, hline _,
      .inl (Text.position_marks hat.le_units ?_)⟩
    exact hat.not_insideBreak (List.cons_ne_nil _ _) (List.forall_mem_singleton.mpr hb)
  · rw [Problem.failure_at]
    refine ⟨limit, _, rfl, rfl, Nat.le_of_lt hlt, hline _, ?_⟩
    rcases Classical.em (Text.InsideBreak 0 source.toList limit) with hb | hb
    · exact .inr ⟨hmax, hb, Text.position_insideBreak (Nat.le_of_lt hlt) hb⟩
    · exact .inl (Text.position_marks (Nat.le_of_lt hlt) hb)

/-- An operator without a right operand, at the end of a second line. -/
def endOfSecondLine : Failure where
  category := .structural
  message := "unexpected end of expression"
  note := none
  index := some (.units 5)
  position := some ⟨2, 1⟩
  snippet := "\n^ --- unexpected end of expression"
  hasCause := false

theorem endOfSecondLine_located :
    (evaluate {} (fun _ _ => .zero) .plain "2 +\r\n").1.failure? = some endOfSecondLine ∧
      ∃ i p, endOfSecondLine.index = some (.units (i : Nat)) ∧
        endOfSecondLine.position = some p ∧ i ≤ Text.units "2 +\r\n" ∧
        1 ≤ p.line ∧ (p.Marks "2 +\r\n" i ∨
          Engine.plain.maxLength = some i ∧ Text.InsideBreak 0 "2 +\r\n".toList i ∧
            p.column = 0) := by
  have h : (evaluate {} (fun _ _ => .zero) .plain "2 +\r\n").1.failure? = some endOfSecondLine := by
    decide +kernel
  exact ⟨h, evaluate_located _ _ _ _ h⟩

/-- The limit may cut a break in half, and then no line and column mark the
offset of the failure. -/
theorem limit_inside_break :
    ∃ f, (evaluate {} (fun _ _ => .zero) { Engine.plain with maxLength := some 2 }
        "1\r\n2").1.failure? = some f ∧ f.index = some (.units (2 : Nat)) ∧
      f.position = some ⟨2, 0⟩ ∧ ∀ p : Text.Position, ¬ p.Marks "1\r\n2" 2 := by
  refine ⟨_, rfl, rfl, by decide, ?_⟩
  rintro p ⟨row, -, hrow, -, hcolumn, hstart⟩
  have hrows : row ∈ [⟨0, ['1']⟩, ⟨3, ['2']⟩] := List.mem_of_getElem? hrow
  simp only [List.mem_cons, List.not_mem_nil, or_false] at hrows
  rcases hrows with rfl | rfl
  · have hunits : Text.unitsOf ['1'] = 1 := rfl
    dsimp only at hcolumn hstart
    omega
  · dsimp only at hstart
    omega

/-- Whatever the catalog and the precision are: if the category of a failure
names something, this stands in the source at the offset of the failure, with
the carets under it, and it is all of a literal, a name or an operator, or a
character that no token covers. -/
theorem evaluate_names (s : Session) (draws : Draws) (e : Engine) (source : String)
    {f : Failure} {text : String}
    (h : (s.evaluate draws e source).1.failure? = some f)
    (hnamed : f.category.named? = some text) :
    ∃ i rest, f.index = some (.units (i : Nat)) ∧
      Text.At 0 source.toList i (text.toList ++ rest) ∧
      Text.CaretsUnder source i text.toList f.snippet ∧
      match f.category with
      | .lexical _ => (∃ ch, text = String.singleton ch) ∧
          ∀ t ∈ (e.catalog.lex source).tokens, ¬ (t.start ≤ i ∧ i < t.stop)
      | _ => ∃ t ∈ (e.catalog.lex source).tokens, t.kind.isNamed = true ∧ t.text = text ∧
          t.start = i ∧ t.stop = ↑(i + Text.units text) := by
  obtain ⟨n, problem, hresult, rfl⟩ := exists_problem h
  rcases Engine.exists_site hresult with hpoints | ⟨stray, hstray, rfl⟩ | ⟨limit, hmax, hlt, rfl⟩
  · have hnone : ∀ {cause : Cause} {place : Option Place},
        (Problem.failure source ⟨cause, place⟩).category.named? = some text →
        cause.category.named? ≠ none := by
      intro cause place hsome hnone
      cases hnone.symm.trans hsome
    cases hpoints with
    | start _ _ hc | stop _ _ hc | front _ hc | back _ hc => exact absurd hc (hnone hnamed)
    | @named cause t ht hk hc =>
        obtain ⟨i, rest, hat, hstart, hstop, hne, hb⟩ := Catalog.exists_at_of_mem_lex ht
        obtain ⟨hname, hnot⟩ := Category.named?_of_subject? hc
        rw [hstart, Problem.failure_at] at hnamed ⊢
        obtain rfl : t.text = text := Option.some.inj (hname.symm.trans hnamed)
        refine ⟨i, rest, rfl, hat, Text.caretsUnder_snippetAt hat hne hb, ?_⟩
        split
        · next hlexical => exact absurd hlexical (hnot _)
        · exact ⟨t, ht, hk, rfl, hstart, hstop⟩
  · obtain ⟨rest, hat, hb, hbehind⟩ := Catalog.exists_at_of_stray hstray
    rw [Stray.problem, Problem.failure_at] at hnamed ⊢
    obtain rfl : String.singleton stray.char = text := Option.some.inj hnamed
    have hchars := String.toList_singleton stray.char
    refine ⟨stray.offset, rest, rfl, by rw [hchars]; exact hat, ?_, ⟨stray.char, rfl⟩,
      fun t ht hcov => ?_⟩
    · rw [hchars]
      have hone : Text.charUnits stray.char = Text.unitsOf [stray.char] := rfl
      rw [hone]
      exact Text.caretsUnder_snippetAt hat (List.cons_ne_nil _ _) (List.forall_mem_singleton.mpr hb)
    · have := hbehind t ht
      omega
  · cases hnamed

/-- A division by zero behind a break. -/
def zeroInSecondLine : Failure where
  category := .operand "/"
  message := "invalid operand for \"/\": division by zero"
  note := none
  index := some (.units 6)
  position := some ⟨2, 4⟩
  snippet := "+ 1/0\n   ^ --- invalid operand for \"/\": division by zero"
  hasCause := false

theorem zeroInSecondLine_names :
    (evaluate {} (fun _ _ => .zero) .plain "2\r\n+ 1/0").1.failure? = some zeroInSecondLine ∧
      zeroInSecondLine.category.named? = some "/" ∧
      ∃ i rest, zeroInSecondLine.index = some (.units (i : Nat)) ∧
        Text.At 0 "2\r\n+ 1/0".toList i ("/".toList ++ rest) ∧
        Text.CaretsUnder "2\r\n+ 1/0" i "/".toList zeroInSecondLine.snippet ∧
        ∃ t ∈ (Engine.plain.catalog.lex "2\r\n+ 1/0").tokens, t.kind.isNamed = true ∧
          t.text = "/" ∧ t.start = i ∧ t.stop = ↑(i + Text.units "/") := by
  have h : (evaluate {} (fun _ _ => .zero) .plain "2\r\n+ 1/0").1.failure? =
      some zeroInSecondLine := by decide +kernel
  exact ⟨h, rfl, evaluate_names _ _ _ _ h rfl⟩

/-! ## Brackets that are not closed -/

/-- Whatever the catalog and the precision are: if a failure says that a bracket is not
closed, it is the innermost one that is open at the end of the source.  The failure is
where that bracket starts, unless it is the bracket of a call and does not start where
the name ends; then the failure is where the name ends. -/
theorem evaluate_unclosed (s : Session) (draws : Draws) (e : Engine) (source : String)
    {f : Failure} {b : String} (h : (s.evaluate draws e source).1.failure? = some f)
    (hcategory : f.category = .structural) (hmessage : f.message = "unclosed \"" ++ b ++ "\"") :
    ∃ before opener inside i, (e.catalog.lex source).tokens = before ++ opener :: inside ∧
      opener.kind = .symbol .opening ∧ opener.text = b ∧ Nested inside ∧
      f.index = some (.units (i : Nat)) ∧
      ((∀ t, before.getLast? = some t → t.kind = .identifier → t.stop = opener.start) →
        (i : Int) = opener.start) ∧
      (∀ t, before.getLast? = some t → t.kind = .identifier → (i : Int) = t.stop) := by
  obtain ⟨n, problem, hresult, rfl⟩ := exists_problem h
  have hcause : problem.cause = .unclosed b := Cause.eq_unclosed hcategory hmessage
  obtain ⟨i, hlacks, rfl⟩ : ∃ i, Lacks (e.catalog.lex source).tokens b i ∧
      problem = ⟨.unclosed b, some ⟨i, 1⟩⟩ := by
    rcases Engine.problem_of_evaluate hresult with ⟨_, -, -, rfl⟩ | ⟨_, -, rfl⟩ | htokens
    · cases hcause
    · cases hcause
    · exact Evaluation.lacks_of_ofTokens htokens hcause
  obtain ⟨before, opener, inside, hall, hkind, htext, hinside, hname, hgroup⟩ := hlacks
  have hmem : ∀ t ∈ before ++ opener :: inside,
      ∃ j k : Nat, t.start = ↑j ∧ t.stop = ↑k := by
    intro t ht
    obtain ⟨j, rest, -, hstart, hstop, -⟩ := Catalog.exists_at_of_mem_lex (hall ▸ ht)
    exact ⟨j, _, hstart, hstop⟩
  by_cases hno : Nameless before
  · obtain ⟨j, k, hstart, -⟩ := hmem opener (List.mem_append_right _ List.mem_cons_self)
    obtain rfl : i = ↑j := (hgroup hno).trans hstart
    rw [Problem.failure_at]
    exact ⟨before, opener, inside, j, hall, hkind, htext, hinside, rfl, fun _ => hstart.symm,
      fun t ht hident => absurd hident (hno t ht)⟩
  · -- the bracket of a call: the failure is where the name in front of it ends
    simp only [Nameless, not_forall, not_not] at hno
    obtain ⟨name, hlast, hident⟩ := hno
    obtain ⟨j, k, -, hstop⟩ :=
      hmem name (List.mem_append_left _ (List.mem_of_getLast? hlast))
    obtain rfl : i = ↑k := (hname name hlast hident).trans hstop
    rw [Problem.failure_at]
    exact ⟨before, opener, inside, k, hall, hkind, htext, hinside, rfl,
      fun htouch => hstop.symm.trans (htouch name hlast hident), hname⟩

/-- A call within a group, neither of them closed. -/
def callWithinGroup : Failure where
  category := .structural
  message := "unclosed \"(\""
  note := none
  index := some (.units 6)
  position := some ⟨1, 7⟩
  snippet := "(2+sum(3\n      ^ --- unclosed \"(\""
  hasCause := false

theorem callWithinGroup_unclosed :
    (evaluate {} (fun _ _ => .zero) .plain "(2+sum(3").1.failure? = some callWithinGroup ∧
      callWithinGroup.category = .structural ∧
      callWithinGroup.message = "unclosed \"" ++ "(" ++ "\"" ∧
      ∃ before opener inside i,
        (Engine.plain.catalog.lex "(2+sum(3").tokens = before ++ opener :: inside ∧
        opener.kind = .symbol .opening ∧ opener.text = "(" ∧ Nested inside ∧
        callWithinGroup.index = some (.units (i : Nat)) ∧
        ((∀ t, before.getLast? = some t → t.kind = .identifier → t.stop = opener.start) →
          (i : Int) = opener.start) ∧
        (∀ t, before.getLast? = some t → t.kind = .identifier → (i : Int) = t.stop) := by
  have h : (evaluate {} (fun _ _ => .zero) .plain "(2+sum(3").1.failure? =
      some callWithinGroup := by decide +kernel
  exact ⟨h, rfl, rfl, evaluate_unclosed _ _ _ _ h rfl rfl⟩

/-- A call that is not closed, with spacing in front of its bracket. -/
def callBehindSpacing : Failure where
  category := .structural
  message := "unclosed \"(\""
  note := none
  index := some (.units 3)
  position := some ⟨1, 4⟩
  snippet := "sum (1\n   ^ --- unclosed \"(\""
  hasCause := false

/-- With spacing in front of the bracket of a call, the failure is not where a bracket
starts. -/
theorem callBehindSpacing_missed :
    (evaluate {} (fun _ _ => .zero) .plain "sum (1").1.failure? = some callBehindSpacing ∧
      callBehindSpacing.category = .structural ∧
      callBehindSpacing.message = "unclosed \"" ++ "(" ++ "\"" ∧
      callBehindSpacing.index = some (.units (3 : Nat)) ∧
      ∀ t ∈ (Engine.plain.catalog.lex "sum (1").tokens,
        t.kind = .symbol .opening → t.start = (4 : Nat) := by
  have h : (evaluate {} (fun _ _ => .zero) .plain "sum (1").1.failure? =
      some callBehindSpacing := by decide +kernel
  exact ⟨h, rfl, rfl, rfl, by decide +kernel⟩

end Session

end Reckoner
