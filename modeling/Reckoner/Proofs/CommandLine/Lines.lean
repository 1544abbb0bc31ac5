/-
# Lines one after the other

Lines are taken up in order, without the blanks at their ends; those of blanks
only are passed over, and nothing is taken up from `:quit` on.

    a line that is taken up          what is said               the precision behind it
    `:precision`                     the precision              as before
    `:precision` with one in range   the new precision          the new one
    `:precision` with another text   that it is invalid         as before
    an expression                    its value or its failure   as before

Which lines are taken up, and what each of them meets, needs no evaluation: that
is `visits`.  What a shell says and how it ends is then told of each of them
(`Runs.said_eq`, `Runs.exit_eq`), by induction on the lines with the precision and
the mark of failure as they are at that line.
-/
import Reckoner.Proofs.CommandLine.Expression

namespace Reckoner

namespace CommandLine

/-- A line that is taken up. -/
structure Visit where
  /-- The line without the blanks at its ends. -/
  text : String
  /-- The number of lines before it, taken up or not. -/
  before : Nat
  /-- The precision that is shared when it is taken up. -/
  precision : Precision

/-- Whether the line is an expression and no command. -/
def Visit.isExpression (v : Visit) : Bool := (Shell.precisionCommand? v.text).isNone

/-- The precision that a line asks for, if it asks for one in range. -/
def asks? (line : String) : Option Precision := (Shell.precisionCommand? line).bind precision?

/-- The lines that are taken up, behind `before` others and from a precision on. -/
def visits (p : Precision) (before : Nat) : List String → List Visit
  | [] => []
  | raw :: rest =>
    if Text.trim raw = "" then visits p (before + 1) rest
    else if Text.trim raw = ":quit" then []
    else ⟨Text.trim raw, before, p⟩ ::
      visits ((asks? (Text.trim raw)).getD p) (before + 1) rest

/-- What is displayed for a line that is an expression, or what stops that. -/
def Visit.shown (c : Catalog) (d : Display) (draws : Nat → Draws) (v : Visit) :
    Except Thrown String :=
  (valueOf c (draws v.before) v.precision v.text).bind fun x => x.display d

/-- What is written besides records. -/
def said (outputs : List Output) : List Output :=
  outputs.filter fun
    | .record _ => false
    | _ => true

/-- What is said of a precision. -/
def precisionIs (p : Precision) : Output :=
  .result ("precision = " ++ toString p.digits ++ "\n")

/-- What is said of a line, from what is displayed for it. -/
def Visit.answer (v : Visit) (shown : Except Thrown String) : List Output :=
  match Shell.precisionCommand? v.text with
  | some value =>
    if value = "" then [precisionIs v.precision]
    else match precision? value with
      | some p => [precisionIs p]
      | none => [.complaint ("invalid precision \"" ++ value ++ "\"\n")]
  | none =>
    match shown with
    | .ok text => [.result ("= " ++ text ++ "\n")]
    | .error (.failure f) => [.result (Shell.explain f v.text)]
    | .error _ => []

/-- Whether what is displayed is a failure. -/
def fails : Except Thrown String → Bool
  | .error (.failure _) => true
  | _ => false

/-- Whether what is displayed, or is not, stops the program. -/
def raises : Except Thrown String → Bool
  | .ok _ | .error (.failure _) => false
  | .error _ => true

/-- How a run over expressions ends, from what is displayed for them. -/
def exitOf (failed : Bool) : List (Except Thrown String) → Except Thrown Nat
  | [] => .ok (if failed then 1 else 0)
  | .ok _ :: rest => exitOf failed rest
  | .error (.failure _) :: rest => exitOf true rest
  | .error t :: _ => .error t

theorem said_records (records : List Log.Record) (outputs : List Output) :
    said (records.map .record ++ outputs) = said outputs := by
  induction records with
  | nil => rfl
  | cons record rest ih => exact ih

/-- If nothing stops the program, it ends with 1 exactly if something has failed. -/
theorem exitOf_eq {shown : List (Except Thrown String)}
    (h : ∀ s ∈ shown, raises s = false) (failed : Bool) :
    exitOf failed shown = .ok (if failed || shown.any fails then 1 else 0) := by
  induction shown generalizing failed with
  | nil => rw [exitOf, List.any_nil, Bool.or_false]
  | cons s rest ih =>
      obtain ⟨hs, hrest⟩ := List.forall_mem_cons.mp h
      rw [List.any_cons]
      cases s with
      | ok text => exact ih hrest failed
      | error t =>
          cases t with
          | failure f =>
              rw [exitOf, ih hrest, fails, Bool.true_or, Bool.or_true]
          | foreign | misuse => cases hs

theorem said_append (front back : List Output) : said (front ++ back) = said front ++ said back :=
  List.filter_append ..

namespace Shell

/-- `Runs c draws sh before raws vs run`: behind `before` lines the shell takes up
the lines `raws`, of which `vs` are more than blank, and `run` is what comes of
it. -/
inductive Runs (c : Catalog) (draws : Nat → Draws) :
    Shell → Nat → List String → List Visit → Run → Prop
  | done (sh : Shell) (before : Nat) :
      Runs c draws sh before [] [] ⟨[], .ok sh.exitCode, sh.session⟩
  | quit {sh : Shell} {before : Nat} {raw : String} {rest : List String} :
      Text.trim raw = ":quit" →
      Runs c draws sh before (raw :: rest) [] ⟨[], .ok sh.exitCode, sh.session⟩
  | blank {sh : Shell} {before : Nat} {raw : String} {rest : List String} {vs : List Visit}
      {run : Run} :
      Text.trim raw = "" → Runs c draws sh (before + 1) rest vs run →
      Runs c draws sh before (raw :: rest) vs run
  | answered {sh : Shell} {before : Nat} {raw : String} {rest : List String} {v : Visit}
      {vs : List Visit} {outputs : List Output} {session : Session} {run : Run} :
      v = ⟨Text.trim raw, before, sh.session.precision⟩ →
      Text.trim raw ≠ "" → Text.trim raw ≠ ":quit" →
      (v.isExpression = true → raises (v.shown c sh.display draws) = false) →
      said outputs = v.answer (v.shown c sh.display draws) →
      session.precision = (asks? v.text).getD sh.session.precision →
      Runs c draws { sh with
        session := session
        failed := sh.failed || (v.isExpression && fails (v.shown c sh.display draws)) }
        (before + 1) rest vs run →
      Runs c draws sh before (raw :: rest) (v :: vs) { run with outputs := outputs ++ run.outputs }
  | raised {sh : Shell} {before : Nat} {raw : String} {rest : List String} {v : Visit}
      {vs : List Visit} {outputs : List Output} {session : Session} {t : Thrown} :
      v = ⟨Text.trim raw, before, sh.session.precision⟩ → v.isExpression = true →
      v.shown c sh.display draws = .error t → raises (.error t) = true →
      Runs c draws sh before (raw :: rest) (v :: vs) ⟨outputs, .error t, session⟩

variable {sh : Shell} {c : Catalog} {draws : Nat → Draws}

/-- The engine is what serves, so whatever else changes does no harm. -/
theorem Serves.behind (h : sh.Serves c) (session : Session) (failed : Bool) :
    Serves c { sh with session := session, failed := failed } :=
  ⟨h.catalog, h.precision, h.maxLength, h.hook⟩

/-- A command changes the precision to the one that it asks for, if any. -/
theorem changePrecision_eq {v : Visit} {value : String}
    (h : precisionCommand? v.text = some value) (hp : v.precision = sh.session.precision)
    (shown : Except Thrown String) :
    ∃ outputs session, said outputs = v.answer shown ∧
      session.precision = (asks? v.text).getD sh.session.precision ∧
      sh.changePrecision value = ⟨outputs, { sh with session := session }, .more⟩ := by
  simp only [changePrecision, Visit.answer, asks?, h, hp, Option.bind_some]
  by_cases hvalue : value = ""
  · subst hvalue
    exact ⟨_, sh.session, by simp only [if_true]; rfl, rfl, rfl⟩
  · simp only [hvalue, if_false]
    cases precision? value with
    | none => exact ⟨_, sh.session, rfl, rfl, rfl⟩
    | some p => exact ⟨_, { sh.session with precision := p }, rfl, rfl, rfl⟩

/-- An expression is evaluated at the precision that is shared, and leaves it. -/
theorem expression_eq (hs : sh.Serves c) (draws : Nat → Draws) {v : Visit}
    (h : precisionCommand? v.text = none) (hp : v.precision = sh.session.precision) :
    ∃ outputs session, session.precision = sh.session.precision ∧
      ((raises (v.shown c sh.display draws) = false ∧
          said outputs = v.answer (v.shown c sh.display draws) ∧
          sh.expression (draws v.before) v.text = ⟨outputs, { sh with
            session := session
            failed := sh.failed || fails (v.shown c sh.display draws) }, .more⟩) ∨
        ∃ t, v.shown c sh.display draws = .error t ∧ raises (.error t) = true ∧
          sh.expression (draws v.before) v.text =
            ⟨outputs, { sh with session := session }, .raised t⟩) := by
  obtain ⟨records, session, hshared, heval⟩ := evaluate_eq hs (draws v.before) v.text
  have hshown : (valueOf c (draws v.before) sh.session.precision v.text).bind
      (fun x => x.display sh.display) = v.shown c sh.display draws := by rw [Visit.shown, hp]
  simp only [expression, heval, Visit.answer, h, hshown]
  cases v.shown c sh.display draws with
  | ok text =>
      refine ⟨records.map .record ++ [.result ("= " ++ text ++ "\n")], session, hshared,
        Or.inl ⟨rfl, said_records _ _, ?_⟩⟩
      simp only [fails, Bool.or_false]
  | error t =>
      cases t with
      | failure f =>
          refine ⟨records.map .record ++ [.result (explain f v.text)], session, hshared,
            Or.inl ⟨rfl, said_records _ _, ?_⟩⟩
          simp only [fails, Bool.or_true]
      | foreign | misuse => exact ⟨_, session, hshared, Or.inr ⟨_, rfl, rfl, rfl⟩⟩

/-- A line that is taken up is answered, unless it stops the program, and the
shell goes on at the precision that the line asks for. -/
theorem line_taken (hs : sh.Serves c) (draws : Nat → Draws) (before : Nat) {raw : String}
    {v : Visit} (hv : v = ⟨Text.trim raw, before, sh.session.precision⟩)
    (hblank : Text.trim raw ≠ "") (hquit : Text.trim raw ≠ ":quit") :
    ∃ outputs session,
      ((v.isExpression = true → raises (v.shown c sh.display draws) = false) ∧
        said outputs = v.answer (v.shown c sh.display draws) ∧
        session.precision = (asks? v.text).getD sh.session.precision ∧
        sh.line (draws before) raw = ⟨outputs, { sh with
          session := session
          failed := sh.failed || (v.isExpression && fails (v.shown c sh.display draws)) }, .more⟩) ∨
      (v.isExpression = true ∧ ∃ t, v.shown c sh.display draws = .error t ∧
        raises (.error t) = true ∧
        sh.line (draws before) raw = ⟨outputs, { sh with session := session }, .raised t⟩) := by
  have htext : Text.trim raw = v.text := by rw [hv]
  have hbefore : draws before = draws v.before := by rw [hv]
  have hprecision : v.precision = sh.session.precision := by rw [hv]
  rw [htext] at hblank hquit
  cases hcommand : precisionCommand? v.text with
  | some value =>
      have hcommanded : v.isExpression = false := by rw [Visit.isExpression, hcommand]; rfl
      obtain ⟨outputs, session, hsaid, hp, hturn⟩ :=
        changePrecision_eq hcommand hprecision (v.shown c sh.display draws)
      refine ⟨outputs, session, Or.inl ⟨?_, hsaid, hp, ?_⟩⟩
      · rw [hcommanded]
        exact fun h => absurd h Bool.false_ne_true
      · rw [hcommanded, Bool.false_and, Bool.or_false, ← hturn]
        simp only [line, htext, hblank, hquit, if_false, hcommand]
  | none =>
      have hexpression : v.isExpression = true := by rw [Visit.isExpression, hcommand]; rfl
      have hline : sh.line (draws before) raw = sh.expression (draws v.before) v.text := by
        simp only [line, htext, hblank, hquit, if_false, hcommand, hbefore]
      have hasks : asks? v.text = none := by rw [asks?, hcommand, Option.bind_none]
      rw [hline, hasks, hexpression, Option.getD_none, Bool.true_and]
      obtain ⟨outputs, session, hp, ⟨hgoes, hsaid, hturn⟩ | ⟨t, hshown, ht, hturn⟩⟩ :=
        expression_eq hs draws hcommand hprecision
      · exact ⟨outputs, session, Or.inl ⟨fun _ => hgoes, hsaid, hp, hturn⟩⟩
      · exact ⟨outputs, session, Or.inr ⟨rfl, t, hshown, ht, hturn⟩⟩

theorem line_blank {raw : String} (h : Text.trim raw = "") (draws : Draws) :
    sh.line draws raw = ⟨[], sh, .more⟩ := if_pos h

theorem line_quit {raw : String} (h : Text.trim raw = ":quit") (draws : Draws) :
    sh.line draws raw = ⟨[], sh, .quit⟩ := by
  simp only [line, h, if_true]
  rfl

/-- What comes of lines, line by line. -/
theorem runs_lines (hs : sh.Serves c) (draws : Nat → Draws) (before : Nat) (raws : List String) :
    Runs c draws sh before raws (visits sh.session.precision before raws)
      (sh.lines draws before raws) := by
  induction raws generalizing sh before with
  | nil => exact .done sh before
  | cons raw rest ih =>
      rw [lines, visits]
      by_cases hblank : Text.trim raw = ""
      · rw [line_blank hblank, if_pos hblank]
        exact .blank hblank (ih hs _)
      by_cases hquit : Text.trim raw = ":quit"
      · rw [line_quit hquit, if_neg hblank, if_pos hquit]
        exact .quit hquit
      rw [if_neg hblank, if_neg hquit]
      obtain ⟨outputs, session, ⟨hgoes, hsaid, hp, hline⟩ | ⟨hexpression, t, hshown, ht, hline⟩⟩ :=
        line_taken hs draws before rfl hblank hquit
      · rw [hline, ← hp]
        exact .answered rfl hblank hquit hgoes hsaid hp (ih (hs.behind session _) _)
      · rw [hline]
        exact .raised rfl hexpression hshown ht

/-! ## All lines -/

variable {before : Nat} {raws : List String} {vs : List Visit} {run : Run}

/-- How lines end is told by what is displayed for the expressions among them. -/
theorem Runs.exit_eq (h : Runs c draws sh before raws vs run) : run.exit = exitOf sh.failed
    ((vs.filter Visit.isExpression).map (Visit.shown c sh.display draws)) := by
  induction h with
  | done | quit => rfl
  | blank _ _ ih => exact ih
  | @answered sh _ _ _ v vs _ _ run _ _ _ hgoes _ _ _ ih =>
      refine ih.trans ?_
      cases hv : v.isExpression with
      | false => rw [List.filter_cons_of_neg (by simp [hv]), Bool.false_and, Bool.or_false]
      | true =>
          rw [List.filter_cons_of_pos hv, List.map_cons, Bool.true_and]
          have hraises := hgoes hv
          cases hshown : v.shown c sh.display draws with
          | ok text => simp only [exitOf, fails, Bool.or_false]
          | error t =>
              rw [hshown] at hraises
              cases t with
              | failure f => simp only [exitOf, fails, Bool.or_true]
              | foreign | misuse => cases hraises
  | @raised _ _ _ _ v _ _ _ t _ hexpression hshown ht =>
      rw [List.filter_cons_of_pos hexpression, List.map_cons, hshown]
      cases t with
      | failure f => cases ht
      | foreign | misuse => rfl

/-- If nothing stops the program, every line that is taken up is answered, in
order. -/
theorem Runs.said_eq (h : Runs c draws sh before raws vs run)
    (hgoes : ∀ v ∈ vs, v.isExpression = true → raises (v.shown c sh.display draws) = false) :
    said run.outputs = vs.flatMap fun v => v.answer (v.shown c sh.display draws) := by
  induction h with
  | done | quit => rfl
  | blank _ _ ih => exact ih hgoes
  | answered _ _ _ _ hsaid _ _ ih =>
      rw [said_append, hsaid, ih fun v hv => hgoes v (List.mem_cons_of_mem _ hv), List.flatMap_cons]
  | raised _ hexpression hshown ht =>
      have := hgoes _ List.mem_cons_self hexpression
      rw [hshown, ht] at this
      cases this

end Shell

/-! ## Which lines are taken up, and at which precision -/

/-- The lines that are taken up: they have no blanks at their ends, are not empty
and stand before the first `:quit`. -/
def taken (raws : List String) : List String :=
  ((raws.map Text.trim).filter (· ≠ "")).takeWhile (· ≠ ":quit")

/-- The precision behind lines: the last one in range that they ask for, or the
one before them. -/
def inForce (p : Precision) (lines : List String) : Precision :=
  ((lines.filterMap asks?).getLast?).getD p

theorem inForce_cons (p : Precision) (line : String) (lines : List String) :
    inForce p (line :: lines) = inForce ((asks? line).getD p) lines := by
  unfold inForce
  cases h : asks? line with
  | none => rw [List.filterMap_cons_none h, Option.getD_none]
  | some q =>
      rw [List.filterMap_cons_some h, List.getLast?_cons, Option.getD_some, Option.getD_some]

theorem taken_cons (raw : String) (rest : List String) : taken (raw :: rest) =
    if Text.trim raw = "" then taken rest
    else if Text.trim raw = ":quit" then []
    else Text.trim raw :: taken rest := by
  unfold taken
  rw [List.map_cons]
  by_cases hblank : Text.trim raw = ""
  · rw [if_pos hblank, List.filter_cons_of_neg (by simp [hblank])]
  · rw [if_neg hblank, List.filter_cons_of_pos (by simp [hblank]), List.takeWhile_cons]
    simp only [ne_eq, decide_not, Bool.not_eq_eq_eq_not, Bool.not_true, decide_eq_false_iff_not,
      ite_not]

/-- The lines that are taken up are taken up at the precision behind those before. -/
theorem getElem?_visits (p : Precision) (before : Nat) (raws : List String) (i : Nat) :
    ((visits p before raws)[i]?).map (fun v => (v.text, v.precision)) =
      ((taken raws)[i]?).map fun line => (line, inForce p ((taken raws).take i)) := by
  induction raws generalizing p before i with
  | nil => rfl
  | cons raw rest ih =>
      rw [visits, taken_cons]
      split
      · exact ih ..
      split
      · rfl
      · cases i with
        | zero => rfl
        | succ i =>
            rw [List.getElem?_cons_succ, List.getElem?_cons_succ, List.take_succ_cons, ih]
            simp only [inForce_cons]

/-- Lines behind lines without `:quit` are taken up as if they stood alone. -/
theorem taken_append {front : List String} (h : ∀ raw ∈ front, Text.trim raw ≠ ":quit")
    (rest : List String) : taken (front ++ rest) = taken front ++ taken rest := by
  induction front with
  | nil => rfl
  | cons raw front ih =>
      obtain ⟨hraw, hfront⟩ := List.forall_mem_cons.mp h
      rw [List.cons_append, taken_cons, taken_cons, if_neg hraw, if_neg hraw, ih hfront]
      split <;> rfl

/-- Each line that is taken up is visited at the precision behind those before. -/
theorem exists_visit {p : Precision} {raws : List String} (before : Nat) {i : Nat} {line : String}
    (h : (taken raws)[i]? = some line) : ∃ v, (visits p before raws)[i]? = some v ∧
      v.text = line ∧ v.precision = inForce p ((taken raws).take i) := by
  have hvisit := getElem?_visits p before raws i
  rw [h] at hvisit
  obtain ⟨v, hv, heq⟩ := Option.map_eq_some_iff.mp hvisit
  obtain ⟨htext, hp⟩ := Prod.mk.inj heq
  exact ⟨v, hv, htext, hp⟩

theorem taken_of_visit {p : Precision} {raws : List String} {before i : Nat} {v : Visit}
    (h : (visits p before raws)[i]? = some v) :
    (taken raws)[i]? = some v.text ∧ v.precision = inForce p ((taken raws).take i) := by
  have hvisit := getElem?_visits p before raws i
  rw [h] at hvisit
  obtain ⟨line, hline, heq⟩ := Option.map_eq_some_iff.mp hvisit.symm
  obtain ⟨htext, hp⟩ := Prod.mk.inj heq
  exact ⟨hline.trans (congrArg some htext), hp.symm⟩

theorem map_text_visits (p : Precision) (before : Nat) (raws : List String) :
    (visits p before raws).map Visit.text = taken raws := by
  refine List.ext_getElem? fun i => ?_
  have h := congrArg (Option.map Prod.fst) (getElem?_visits p before raws i)
  simp only [Option.map_map, Function.comp_def] at h
  rw [List.getElem?_map, h, Option.map_id']

namespace Shell

variable {sh : Shell} {c : Catalog} {draws : Nat → Draws}

/-- Behind lines that do not stop it, a run goes on from a shell whose precision
is the one that is in force behind them. -/
theorem lines_append (hs : sh.Serves c) (before : Nat) {front : List String}
    (hquit : ∀ raw ∈ front, Text.trim raw ≠ ":quit")
    (hgoes : ∀ v ∈ visits sh.session.precision before front, v.isExpression = true →
      raises (v.shown c sh.display draws) = false) :
    ∃ (sh' : Shell) (written : List Output),
      sh'.session.precision = inForce sh.session.precision (taken front) ∧
      ∀ rest, sh.lines draws before (front ++ rest) =
        { sh'.lines draws (before + front.length) rest with
          outputs := written ++ (sh'.lines draws (before + front.length) rest).outputs } := by
  induction front generalizing sh before with
  | nil => exact ⟨sh, [], rfl, fun _ => rfl⟩
  | cons raw front ih =>
      obtain ⟨hraw, hfront⟩ := List.forall_mem_cons.mp hquit
      have hlength : before + (raw :: front).length = before + 1 + front.length := by
        rw [List.length_cons]
        omega
      rw [visits] at hgoes
      rw [taken_cons, hlength]
      by_cases hblank : Text.trim raw = ""
      · rw [if_pos hblank] at hgoes ⊢
        obtain ⟨sh', written, hp, hlines⟩ := ih hs (before + 1) hfront hgoes
        refine ⟨sh', written, hp, fun rest => ?_⟩
        rw [List.cons_append, lines, line_blank hblank]
        exact hlines rest
      rw [if_neg hblank, if_neg hraw] at hgoes ⊢
      obtain ⟨hfirst, hgoes⟩ := List.forall_mem_cons.mp hgoes
      obtain ⟨outputs, session, ⟨-, -, hp, hline⟩ | ⟨hexpression, t, hshown, ht, -⟩⟩ :=
        line_taken hs draws before rfl hblank hraw
      · rw [← hp] at hgoes
        generalize (sh.failed || _) = failed at hline
        obtain ⟨sh', written, hp', hlines⟩ :=
          ih (hs.behind session failed) (before + 1) hfront hgoes
        refine ⟨sh', outputs ++ written, ?_, fun rest => ?_⟩
        · rw [hp', inForce_cons, ← hp]
        · rw [List.cons_append, lines, hline]
          simp only [hlines rest, List.append_assoc]
      · rw [← hshown, hfirst hexpression] at ht
        cases ht

end Shell

end CommandLine

end Reckoner
