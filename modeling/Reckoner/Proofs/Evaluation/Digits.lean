/-
# Digits throughout an evaluation

Every number that an evaluation holds, hands to a primitive, reports or gives
back is finite and has at most `p` significant digits.  A numeral is rounded
when it is read, and what the primitives give is within `p` digits if their operands
are; `Reckoner.Proofs.Evaluation.Values` carries that through an evaluation.

What `random` gives comes from outside.  Of it nothing is used but that it lies
between zero and one.
-/
import Reckoner.Catalog.Preset
import Reckoner.Proofs.Evaluation.Values

namespace Reckoner

/-- A step whose operands and result are within `p` digits. -/
abbrev Step.Within (p : Nat) (step : Step) : Prop := step.All (Number.Within p)

/-- Values and steps that are within `p` digits. -/
abbrev Work.Within (p : Nat) (w : Work) : Prop := w.All (Number.Within p)

theorem Applied.within_outcome (p : Precision) {draw : Decimal} (hd : draw.IsDraw)
    (a : Applied) {xs : List Number} (hxs : ∀ x ∈ xs, x.Within p.digits) :
    (a.outcome p.digits draw xs).Within p.digits := by
  cases a with
  | operator op => exact op.within_apply p.positive hxs
  | function f => exact f.id.within_apply p.positive hd hxs
  | constant k => exact k.id.within_value p

variable {c : Catalog} {p : Precision} {draws : Nat → Decimal}

theorem Numerics.keeps_within (hd : ∀ k, (draws k).IsDraw) :
    Numerics.Keeps ⟨p.digits, draws⟩ (Number.Within p.digits) where
  literal := Number.within_parse p.positive
  applied := fun a k _ hxs => a.within_outcome p (hd k) hxs

/-- At every moment of an evaluation, all values that wait and all operands and
results on record are finite and have at most `p` significant digits; so have
those of the steps that it reports, whether or not it gives a value, and the
value that it gives. -/
theorem evaluation_within (c : Catalog) (p : Precision) (draws : Nat → Decimal)
    (hd : ∀ k, (draws k).IsDraw) (width : Nat) (tokens : List Token) :
    (∀ m, Leads c ⟨p.digits, draws⟩ (Moment.start tokens) m → m.state.work.Within p.digits) ∧
    (∀ step ∈ (Evaluation.ofTokens c ⟨p.digits, draws⟩ width tokens).steps,
      step.Within p.digits) ∧
    ∀ x, (Evaluation.ofTokens c ⟨p.digits, draws⟩ width tokens).result = .ok x →
      x.Within p.digits :=
  ⟨fun _ hl => (Numerics.keeps_within hd).leads hl Work.all_initial,
    (Numerics.keeps_within hd).outcome c width tokens⟩

/-- The tokens of `random()/3`. -/
def thirdOfRandom : List Token :=
  [⟨.identifier, "random", 0, 6⟩, ⟨.symbol .opening, "(", 6, 7⟩, ⟨.symbol .closing, ")", 7, 8⟩,
   ⟨.symbol .operator, "/", 8, 9⟩, ⟨.literal, "3", 9, 10⟩]

/-- One half, as it may come from `random`. -/
def half : Decimal := ⟨false, 5, -1⟩

theorem thirdOfRandom_within :
    half.IsDraw ∧
      ∀ step ∈ (Evaluation.ofTokens (Preset.catalog .standard)
        ⟨Precision.standard.digits, fun _ => half⟩ 10 thirdOfRandom).steps,
        step.Within Precision.standard.digits := by
  have hd : half.IsDraw := ⟨rfl, by decide +kernel⟩
  exact ⟨hd, (evaluation_within (Preset.catalog .standard) Precision.standard (fun _ => half)
    (fun _ => hd) 10 thirdOfRandom).2.1⟩

end Reckoner
