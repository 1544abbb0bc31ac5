/-
# Lines and single expressions

A program that is given lines treats each expression among them as a program of
its own would that is given that line as its one expression, with the precision
that is in force at the line among its words.

    the line alone                       the line among others
    exit 0, a result                     the result behind `= `
    exit 1, a failure as a complaint     the same text as a result
    the exit is 1 for some expression    the exit is 1

The other way round nothing is left open: what is written for the other lines is
in the rules of `Answers` too.  Sources that draw numbers are left out, since two
programs draw different ones; then what comes of a source depends on nothing that
the two do not share (`valueOf_drawless`).
-/
import Reckoner.Proofs.CommandLine.Lines
import Reckoner.Proofs.CommandLine.Words
import Reckoner.Proofs.Evaluation.Draws

namespace Reckoner

namespace CommandLine

/-- `Answers p line shot outputs`: the outputs are what is to be written for a
line at a precision; `shot` is the run that has the line as its one expression. -/
inductive Answers (p : Precision) (line : String) (shot : Run) : List Output → Prop
  | told : Shell.precisionCommand? line = some "" → Answers p line shot [precisionIs p]
  | changed {value : String} {q : Precision} :
      Shell.precisionCommand? line = some value → precision? value = some q →
      Answers p line shot [precisionIs q]
  | refused {value : String} :
      Shell.precisionCommand? line = some value → value ≠ "" → precision? value = none →
      Answers p line shot [.complaint ("invalid precision \"" ++ value ++ "\"\n")]
  | value {text : String} :
      Shell.precisionCommand? line = none → shot.exit = .ok 0 →
      said shot.outputs = [.result text] → Answers p line shot [.result ("= " ++ text)]
  | failure {text : String} :
      Shell.precisionCommand? line = none → shot.exit = .ok 1 →
      said shot.outputs = [.complaint text] → Answers p line shot [.result text]

/-! ## Sources that draw no numbers -/

theorem valueOf_drawless {c : Catalog} {source : String} (h : c.draws source = false)
    (draws draws' : Draws) (p : Precision) :
    valueOf c draws p source = valueOf c draws' p source := by
  let n : Numerics := ⟨p.digits, draws' p.digits⟩
  have hdraws : Evaluation.ofSource c (n.withDraws (draws p.digits)) source =
      Evaluation.ofSource c n source := Evaluation.ofSource_withDraws h _
  exact congrArg (fun evaluation => Session.resultOf source none evaluation.result) hdraws

theorem settled_drawless {c : Catalog} {source : String} (h : c.draws source = false)
    (draws : Draws) (p : Precision) : Settled (valueOf c draws p source) := by
  have hzero : Decimal.zero.IsDraw := ⟨rfl, by decide +kernel⟩
  let zeros : Draws := fun _ _ => .zero
  rw [valueOf_drawless h draws zeros]
  exact settled_valueOf (fun _ => hzero) source

theorem fits_of_le {n : Nat} (h0 : n ≠ 0) (h : n ≤ Display.most) :
    Display.Fits { significant := some (.ofNat n) } := by
  intro x hx
  cases hx
  exact ⟨n, Binary64.toNat?_ofNat (Nat.lt_of_le_of_lt h (by decide)), by omega, h⟩

/-! ## One expression -/

variable {s : Style} {n : Nat} {v : Visit}

theorem run_oneShot (h0 : n ≠ 0) (p : Precision) (s : Style) (line : String)
    (draws : Nat → Draws) (env : Environment) (input : String) :
    ∃ (outputs : List Output) (sh : Shell),
      (∀ back, said (outputs ++ back) = said back) ∧ sh.Serves (Preset.catalog s) ∧
      sh.session.precision = p ∧ sh.display = { significant := some (.ofNat n) } ∧
      run draws (oneShot p s n line) env input =
        { sh.single (draws 0) line with
          outputs := outputs ++ (sh.single (draws 0) line).outputs } := by
  let o : Options :=
    { precision := some p, style := s, digits := some (.ofNat n), expression := [line] }
  refine ⟨(Shell.start o env).1, (Shell.start o env).2, fun back => said_records _ back,
    Shell.serves_start o env, rfl, rfl, ?_⟩
  have hline : " ".intercalate [line] = line := String.intercalate_singleton
  simp only [run, start, ofWords_oneShot p s h0 line, Bool.false_eq_true, if_false,
    List.isEmpty_cons, hline]
  rfl

/-- Either an expression is displayed among lines, and the run that has it as its
one expression displays the same, or it fails in both. -/
theorem Visit.oneShot_cases (h0 : n ≠ 0) (hmost : n ≤ Display.most)
    (hfree : (Preset.catalog s).draws v.text = false) (draws draws' : Nat → Draws)
    (env : Environment) (input : String) :
    let shown := v.shown (Preset.catalog s) { significant := some (.ofNat n) } draws
    let shot := run draws' (oneShot v.precision s n v.text) env input
    (∃ text, shown = .ok text ∧ shot.exit = .ok 0 ∧ said shot.outputs = [.result (text ++ "\n")]) ∨
      ∃ f, shown = .error (.failure f) ∧ shot.exit = .ok 1 ∧
        said shot.outputs = [.complaint (Shell.explain f v.text)] := by
  obtain ⟨outputs, sh, hfront, hs, hp, hdisplay, hrun⟩ :=
    run_oneShot h0 v.precision s v.text draws' env input
  obtain ⟨records, session, -, heval⟩ := Shell.evaluate_eq hs (draws' 0) v.text
  rw [hp] at heval
  simp only [hrun, hfront, shown, valueOf_drawless hfree (draws v.before) (draws' 0), Shell.single,
    heval]
  rcases settled_drawless hfree (draws' 0) v.precision with ⟨x, hx⟩ | ⟨f, hf⟩
  · obtain ⟨text, htext⟩ := Display.exists_display (fits_of_le h0 hmost) rfl x
    simp only [hx, hdisplay, htext, said_records, Except.bind]
    exact Or.inl ⟨text, rfl, trivial, rfl⟩
  · simp only [hf, said_records, Except.bind]
    exact Or.inr ⟨f, rfl, trivial, rfl⟩

/-- The answer to a line agrees with the run that has it as its one expression. -/
theorem Visit.answers (h0 : n ≠ 0) (hmost : n ≤ Display.most)
    (hfree : v.isExpression = true → (Preset.catalog s).draws v.text = false)
    (draws draws' : Nat → Draws) (env : Environment) (input : String) :
    Answers v.precision v.text (run draws' (oneShot v.precision s n v.text) env input)
      (v.answer (v.shown (Preset.catalog s) { significant := some (.ofNat n) } draws)) := by
  unfold answer
  cases hcommand : Shell.precisionCommand? v.text with
  | some value =>
      simp only
      split
      · next hempty => exact .told (hempty ▸ hcommand)
      · next hne =>
          cases hq : precision? value with
          | some q => exact .changed hcommand hq
          | none => exact .refused hcommand hne hq
  | none =>
      have hdrawless := hfree (by rw [isExpression, hcommand]; rfl)
      rcases oneShot_cases h0 hmost hdrawless draws draws' env input with
        ⟨text, hshown, hexit, hsaid⟩ | ⟨f, hshown, hexit, hsaid⟩
      · simp only [hshown, String.append_assoc]
        exact .value hcommand hexit hsaid
      · simp only [hshown]
        exact .failure hcommand hexit hsaid

/-! ## Lines -/

section

/-- None of the expressions among lines draws numbers. -/
def Drawless (c : Catalog) (raws : List String) : Prop :=
  ∀ line ∈ taken raws, Shell.precisionCommand? line = none → c.draws line = false

theorem Drawless.of_mem_visits {c : Catalog} {raws : List String} (hfree : Drawless c raws)
    {p : Precision} {before : Nat} (hv : v ∈ visits p before raws) (h : v.isExpression = true) :
    c.draws v.text = false := by
  refine hfree v.text ?_ (Option.isNone_iff_eq_none.mp h)
  rw [← map_text_visits p before]
  exact List.mem_map_of_mem hv

/-- Nothing stops a program that displays with a usable number of digits. -/
theorem Visit.raises_shown (h0 : n ≠ 0) (hmost : n ≤ Display.most)
    (hfree : (Preset.catalog s).draws v.text = false) (draws : Nat → Draws) :
    raises (v.shown (Preset.catalog s) { significant := some (.ofNat n) } draws) = false := by
  rcases oneShot_cases h0 hmost hfree draws draws {} "" with ⟨_, hshown, -⟩ | ⟨_, hshown, -⟩
  · rw [hshown]
    rfl
  · rw [hshown]
    rfl

/-- An expression fails among lines if the run that has it as its one expression
ends with 1. -/
theorem Visit.fails_iff (h0 : n ≠ 0) (hmost : n ≤ Display.most)
    (hfree : (Preset.catalog s).draws v.text = false) (draws draws' : Nat → Draws)
    (env : Environment) (input : String) :
    fails (v.shown (Preset.catalog s) { significant := some (.ofNat n) } draws) = true ↔
      (run draws' (oneShot v.precision s n v.text) env input).exit = .ok 1 := by
  rcases oneShot_cases h0 hmost hfree draws draws' env input with
    ⟨_, hshown, hexit, -⟩ | ⟨_, hshown, hexit, -⟩
  · simp only [hshown, hexit, fails, Bool.false_eq_true, Except.ok.injEq, Nat.zero_ne_one]
  · simp only [hshown, hexit, fails]

/-- A shell that serves a style and displays with a usable number of digits. -/
structure Shell.Displays (sh : Shell) (s : Style) (n : Nat) : Prop where
  serves : sh.Serves (Preset.catalog s)
  display : sh.display = { significant := some (.ofNat n) }
  positive : n ≠ 0
  le_most : n ≤ Display.most

namespace Shell.Displays

variable {sh : Shell} {raws : List String} (h : sh.Displays s n)
  (hfree : Drawless (Preset.catalog s) raws) (draws draws' : Nat → Draws) (env : Environment)
  (input : String)

include h hfree

/-- No line stops it. -/
theorem goes_on (p : Precision) (before : Nat) : ∀ v ∈ visits p before raws,
    v.isExpression = true → raises (v.shown (Preset.catalog s) sh.display draws) = false := by
  intro v hv hexpression
  rw [h.display]
  exact Visit.raises_shown h.positive h.le_most (hfree.of_mem_visits hv hexpression) draws

/-- It ends with 1 just if an expression has failed, before or among the lines. -/
theorem exit_lines : (sh.lines draws 0 raws).exit = .ok (if sh.failed ||
    ((visits sh.session.precision 0 raws).filter Visit.isExpression).any
      (fun v => fails (v.shown (Preset.catalog s) sh.display draws)) then 1 else 0) := by
  refine (runs_lines h.serves draws 0 raws).exit_eq.trans ?_
  rw [exitOf_eq, List.any_map]
  · rfl
  · intro shown hshown
    obtain ⟨v, hv, rfl⟩ := List.mem_map.mp hshown
    obtain ⟨hv, hexpression⟩ := List.mem_filter.mp hv
    exact h.goes_on hfree draws _ _ v hv hexpression

/-- It ends with 0 or 1, and with 1 just if the run of one of the lines alone does. -/
theorem exit_lines_iff (hfailed : sh.failed = false) :
    ((sh.lines draws 0 raws).exit = .ok 0 ∨ (sh.lines draws 0 raws).exit = .ok 1) ∧
      ((sh.lines draws 0 raws).exit = .ok 1 ↔
        ∃ i line, (taken raws)[i]? = some line ∧ precisionCommand? line = none ∧
          (run draws' (oneShot (inForce sh.session.precision ((taken raws).take i)) s n line)
            env input).exit = .ok 1) := by
  have hexit := h.exit_lines hfree draws
  rw [hfailed, Bool.false_or] at hexit
  have hone : (sh.lines draws 0 raws).exit = .ok 1 ↔
      ∃ v ∈ visits sh.session.precision 0 raws, v.isExpression = true ∧
        fails (v.shown (Preset.catalog s) sh.display draws) = true := by
    rw [hexit]
    simp only [Except.ok.injEq, List.any_eq_true, List.mem_filter, and_assoc]
    split
    · next hsome => exact ⟨fun _ => hsome, fun _ => rfl⟩
    · next hnone => exact ⟨fun h0 => absurd h0 (by decide), fun hsome => absurd hsome hnone⟩
  have hfails : ∀ v ∈ visits sh.session.precision 0 raws, v.isExpression = true →
      (fails (v.shown (Preset.catalog s) sh.display draws) = true ↔
        (run draws' (oneShot v.precision s n v.text) env input).exit = .ok 1) := by
    intro v hv hexpression
    rw [h.display]
    exact Visit.fails_iff h.positive h.le_most (hfree.of_mem_visits hv hexpression) ..
  refine ⟨?_, hone.trans ⟨?_, ?_⟩⟩
  · rw [hexit]
    split
    · exact Or.inr rfl
    · exact Or.inl rfl
  · rintro ⟨v, hv, hexpression, hfail⟩
    obtain ⟨i, hi⟩ := List.mem_iff_getElem?.mp hv
    obtain ⟨hline, hprecision⟩ := taken_of_visit hi
    rw [hfails v hv hexpression, hprecision] at hfail
    exact ⟨i, v.text, hline, Option.isNone_iff_eq_none.mp hexpression, hfail⟩
  · rintro ⟨i, line, hline, hcommand, hshot⟩
    obtain ⟨v, hi, rfl, hprecision⟩ := exists_visit 0 hline
    have hv := List.mem_of_getElem? hi
    have hexpression : v.isExpression = true := Option.isNone_iff_eq_none.mpr hcommand
    rw [← hprecision, ← hfails v hv hexpression] at hshot
    exact ⟨v, hv, hexpression, hshot⟩

/-- Every line that is taken up has its answer, in order. -/
theorem said_lines : ∃ answers : List (List Output),
    said (sh.lines draws 0 raws).outputs = answers.flatten ∧
      answers.length = (taken raws).length ∧
      ∀ i line, (taken raws)[i]? = some line → ∃ answer, answers[i]? = some answer ∧
        Answers (inForce sh.session.precision ((taken raws).take i)) line
          (run draws' (oneShot (inForce sh.session.precision ((taken raws).take i)) s n line)
            env input) answer := by
  refine ⟨(visits sh.session.precision 0 raws).map fun v =>
    v.answer (v.shown (Preset.catalog s) sh.display draws), ?_, ?_, ?_⟩
  · exact (runs_lines h.serves draws 0 raws).said_eq (h.goes_on hfree draws _ _)
  · rw [List.length_map, ← List.length_map Visit.text, map_text_visits]
  · intro i line hline
    obtain ⟨v, hv, rfl, hprecision⟩ := exists_visit 0 hline
    refine ⟨_, by rw [List.getElem?_map, hv, Option.map_some], ?_⟩
    rw [h.display, ← hprecision]
    exact Visit.answers h.positive h.le_most
      (fun hexpression => hfree.of_mem_visits (List.mem_of_getElem? hv) hexpression) ..

end Shell.Displays

end

/-- A program without an expression among its words takes its input line by line. -/
theorem run_lines {words : List String} {o : Options} (hwords : Options.ofWords words = .ok o)
    (hhelp : o.help = false) (hlines : o.expression = []) (draws : Nat → Draws)
    (env : Environment) (input : String) :
    run draws words env input =
      let run := (Shell.start o env).2.lines draws 0 ((Text.linesOf input.toList).map String.ofList)
      { run with outputs := (Shell.start o env).1 ++ run.outputs } := by
  simp only [run, start, hwords, hhelp, hlines, List.isEmpty_nil, Bool.false_eq_true, if_false,
    if_true]

/-- A change of the precision, an expression that is displayed and one that fails. -/
def threeLines : String := ":precision 3\n2/3\n1/0"

end CommandLine

end Reckoner
